/-!
# Reading UTF-8

A text is read from octets of any kind.  Well-formed sequences become their characters; of anything
else each longest piece that could have started a character becomes U+FFFD.

The reader is a machine that takes one octet at a time, so long outputs are read in one pass.
-/

namespace Stencil.Text.Utf8

/-- A character that has been started. -/
structure Started where
  /-- How many octets are still to come, less one. -/
  more : Nat
  /-- The least octet that can come next. -/
  least : UInt8
  /-- The greatest octet that can come next. -/
  greatest : UInt8
  /-- The bits read so far. -/
  bits : Nat

/-- The reader: the characters read, the last one first, and the one that has been started. -/
structure Reader where
  /-- The characters, the last one first. -/
  read : List Char
  /-- The character that has been started. -/
  started : Option Started

/-- What stands for octets that are no character. -/
def replacement : Char := '\ufffd'

/-- Takes an octet at which a character may start. -/
def Reader.start (read : List Char) (b : UInt8) : Reader :=
  let begin (more : Nat) (least greatest : UInt8) (bits : Nat) : Reader :=
    ⟨read, some ⟨more, least, greatest, bits⟩⟩
  let n := b.toNat
  if n < 0x80 then ⟨Char.ofNat n :: read, none⟩
  else if n < 0xC2 then ⟨replacement :: read, none⟩
  else if n < 0xE0 then begin 0 0x80 0xBF (n - 0xC0)
  else if n = 0xE0 then begin 1 0xA0 0xBF 0
  else if n = 0xED then begin 1 0x80 0x9F 0xD
  else if n < 0xF0 then begin 1 0x80 0xBF (n - 0xE0)
  else if n = 0xF0 then begin 2 0x90 0xBF 0
  else if n < 0xF4 then begin 2 0x80 0xBF (n - 0xF0)
  else if n = 0xF4 then begin 2 0x80 0x8F 4
  else ⟨replacement :: read, none⟩

/-- Takes an octet. -/
def Reader.step (r : Reader) (b : UInt8) : Reader :=
  match r.started with
  | none => .start r.read b
  | some s =>
    if s.least ≤ b && b ≤ s.greatest then
      let bits := s.bits * 64 + (b.toNat - 0x80)
      match s.more with
      | 0 => ⟨Char.ofNat bits :: r.read, none⟩
      | more + 1 => ⟨r.read, some ⟨more, 0x80, 0xBF, bits⟩⟩
    else .start (replacement :: r.read) b

/-- The characters read once the octets have ended, the last one first. -/
def Reader.finish (r : Reader) : List Char :=
  match r.started with
  | none => r.read
  | some _ => replacement :: r.read

/-- The characters of octets, the last one first. -/
def decodeReversed (octets : ByteArray) : List Char :=
  (octets.foldl Reader.step ⟨[], none⟩).finish

/-- The text of octets. -/
def decodeLossy (octets : ByteArray) : String := .ofList (decodeReversed octets).reverse

end Stencil.Text.Utf8
