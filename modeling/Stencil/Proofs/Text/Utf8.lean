import Mathlib.Algebra.Group.Nat.Defs
import Mathlib.Tactic.SplitIfs
import Stencil.Text.Utf8

/-!
# What Octets Read As

Octets of any kind read as one text.  Where the encoding of a character stands, that character is read.
Elsewhere a piece is broken: the longest one that starts the encoding of a character, or a single octet
if there is none, is read as U+FFFD.  The reader that takes one octet at a time reads this text: what it
has started is a piece that the octets still to come would complete.

Main statements: `decodeLossy_eq_iff`, and `decodeLossy_toByteArray` for the octets of a text.
-/

namespace Stencil.Text.Utf8

open String (utf8EncodeChar)

/-! ## §1 Encodings -/

/-- How many octets come behind the first one of the encoding of a number. -/
def width (n : Nat) : Nat :=
  if n < 0x80 then 0 else if n < 0x800 then 1 else if n < 0x10000 then 2 else 3

/-- The mark on a first octet with so many octets behind it. -/
def mark : Nat → Nat
  | 0 => 0
  | 1 => 0xC0
  | 2 => 0xE0
  | _ => 0xF0

/-- The first octet of the encoding of a number. -/
def lead (n : Nat) : Nat := mark (width n) + n / 64 ^ width n

/-- The octet of a digit of a number to the base 64, the last digit counted as the first. -/
def digit (n place : Nat) : Nat := 0x80 + n / 64 ^ place % 64

/-- The octets of the last digits of a number. -/
def digits (n : Nat) : Nat → List Nat
  | 0 => []
  | k + 1 => digit n k :: digits n k

theorem map_toNat_utf8EncodeChar (c : Char) :
    (utf8EncodeChar c).map UInt8.toNat = lead c.toNat :: digits c.toNat (width c.toNat) := by
  have hvalid : c.toNat < 0xD800 ∨ 0xDFFF < c.toNat ∧ c.toNat < 0x110000 := c.valid
  have hval : c.val.toNat = c.toNat := rfl
  rw [utf8EncodeChar, lead, width, hval]
  simp only [Nat.lt_succ_iff]
  split_ifs <;> simp [mark, digits, digit] <;> omega

theorem utf8EncodeChar_eq_cons_iff {c : Char} {b : UInt8} {l : List UInt8} :
    utf8EncodeChar c = b :: l ↔
      lead c.toNat = b.toNat ∧ digits c.toNat (width c.toNat) = l.map UInt8.toNat := by
  rw [← List.cons.injEq, ← List.map_cons, ← map_toNat_utf8EncodeChar,
    List.map_inj_right fun _ _ => UInt8.toNat_inj.1]

theorem length_digits (n k : Nat) : (digits n k).length = k := by
  induction k with
  | zero => rfl
  | succ k ih => rw [digits, List.length_cons, ih]

theorem digit_bounds (n place : Nat) : 0x80 ≤ digit n place ∧ digit n place ≤ 0xBF := by
  unfold digit
  omega

theorem digits_bounds {n k d : Nat} (h : d ∈ digits n k) : 0x80 ≤ d ∧ d ≤ 0xBF := by
  induction k with
  | zero => exact absurd h (by simp [digits])
  | succ k ih =>
    rcases List.mem_cons.1 h with rfl | h
    · exact digit_bounds n k
    · exact ih h

/-- Each width of an encoding, with its numbers and its first octets. -/
theorem width_cases {n : Nat} (h : n.isValidChar) :
    (width n = 0 ∧ n < 0x80 ∧ lead n = n) ∨
    (width n = 1 ∧ 0x80 ≤ n ∧ n < 0x800 ∧ lead n = 0xC0 + n / 64) ∨
    (width n = 2 ∧ 0x800 ≤ n ∧ n < 0x10000 ∧ (n < 0xD800 ∨ 0xDFFF < n) ∧ lead n = 0xE0 + n / 4096) ∨
    (width n = 3 ∧ 0x10000 ≤ n ∧ n < 0x110000 ∧ lead n = 0xF0 + n / 262144) := by
  simp only [Nat.isValidChar] at h
  unfold lead width
  split_ifs <;> simp [mark] <;> omega

/-- A character is read off any octets that start with its encoding. -/
theorem eq_of_utf8EncodeChar_append {c c' : Char} {l l' : List UInt8}
    (h : utf8EncodeChar c ++ l = utf8EncodeChar c' ++ l') : c = c' := by
  have hread (c : Char) (l : List UInt8) :
      ByteArray.utf8DecodeChar? (utf8EncodeChar c ++ l).toByteArray 0 = some c := by
    rw [List.toByteArray_append, ByteArray.utf8DecodeChar?_utf8EncodeChar_append]
  exact Option.some_inj.1 ((hread c l).symm.trans (h ▸ hread c' l'))

/-! ## §2 Readings -/

/-- Whether octets start the encoding of a character. -/
def Starts (piece : List UInt8) : Prop := ∃ c, piece <+: utf8EncodeChar c

theorem Starts.of_append {piece more : List UInt8} (h : Starts (piece ++ more)) : Starts piece := by
  obtain ⟨c, hc⟩ := h
  exact ⟨c, (List.prefix_append _ _).trans hc⟩

/-- Whether a piece at the start of octets is broken: no character is encoded there, and of the pieces
that start the encoding of a character it is the longest, or one octet if there is none. -/
structure Broken (piece rest : List UInt8) : Prop where
  /-- No character is encoded. -/
  not_encoded : ∀ c, ¬utf8EncodeChar c <+: piece ++ rest
  /-- It is one octet, or starts the encoding of a character. -/
  starts : piece.length = 1 ∨ (piece ≠ [] ∧ Starts piece)
  /-- No longer piece starts the encoding of a character. -/
  longest : ∀ longer, longer <+: piece ++ rest → Starts longer → longer.length ≤ piece.length

/-- Reading octets of any kind: an encoding is its character, and a broken piece is U+FFFD. -/
inductive Lossy : List UInt8 → List Char → Prop where
  /-- No octets are the empty text. -/
  | nil : Lossy [] []
  /-- An encoding is its character. -/
  | char {rest : List UInt8} {cs : List Char} (c : Char) :
      Lossy rest cs → Lossy (utf8EncodeChar c ++ rest) (c :: cs)
  /-- A broken piece is U+FFFD. -/
  | broken {piece rest : List UInt8} {cs : List Char} :
      Broken piece rest → Lossy rest cs → Lossy (piece ++ rest) ('\ufffd' :: cs)

theorem Broken.ne_nil {piece rest : List UInt8} (h : Broken piece rest) : piece ≠ [] := by
  rcases h.starts with hone | ⟨hne, -⟩
  · exact List.ne_nil_of_length_eq_add_one hone
  · exact hne

theorem Broken.length_le {piece rest piece' rest' : List UInt8} (h : Broken piece rest)
    (h' : Broken piece' rest') (heq : piece ++ rest = piece' ++ rest') :
    piece.length ≤ piece'.length := by
  rcases h.starts with hone | ⟨-, hstarts⟩
  · rw [hone]
    exact List.length_pos_iff.2 h'.ne_nil
  · exact h'.longest piece (heq ▸ List.prefix_append _ _) hstarts

theorem Lossy.unique {l : List UInt8} {cs cs' : List Char} (h : Lossy l cs) (h' : Lossy l cs') :
    cs = cs' := by
  -- What is read is no variable here, so it is generalized before the second reading is split.
  induction h generalizing cs' with
  | nil =>
    generalize hl : ([] : List UInt8) = l at h'
    cases h' with
    | nil => rfl
    | char c _ => exact absurd (List.append_eq_nil_iff.1 hl.symm).1 String.utf8EncodeChar_ne_nil
    | broken hbroken _ => exact absurd (List.append_eq_nil_iff.1 hl.symm).1 hbroken.ne_nil
  | @char rest cs c _ ih =>
    generalize hl : utf8EncodeChar c ++ rest = l at h'
    cases h' with
    | nil => exact absurd (List.append_eq_nil_iff.1 hl).1 String.utf8EncodeChar_ne_nil
    | char c' hrest =>
      obtain rfl := eq_of_utf8EncodeChar_append hl
      rw [ih (List.append_cancel_left hl ▸ hrest)]
    | broken hbroken _ => exact absurd ⟨rest, hl⟩ (hbroken.not_encoded c)
  | @broken piece rest cs hbroken _ ih =>
    generalize hl : piece ++ rest = l at h'
    cases h' with
    | nil => exact absurd (List.append_eq_nil_iff.1 hl).1 hbroken.ne_nil
    | char c _ => exact absurd ⟨_, hl.symm⟩ (hbroken.not_encoded c)
    | broken hbroken' hrest =>
      have hlength :=
        Nat.le_antisymm (hbroken.length_le hbroken' hl) (hbroken'.length_le hbroken hl.symm)
      obtain ⟨rfl, rfl⟩ := List.append_inj hl hlength
      rw [ih hrest]

/-! ## §3 What has been started -/

/-- The number that bits make with the octets behind them. -/
def bitsWith : List UInt8 → Nat → Nat
  | [], bits => bits
  | b :: following, bits => bitsWith following (bits * 64 + (b.toNat - 0x80))

theorem bitsWith_eq_iff {l : List UInt8} {bits n : Nat} (h : ∀ b ∈ l, 0x80 ≤ b.toNat ∧ b.toNat ≤ 0xBF) :
    bitsWith l bits = n ↔ n / 64 ^ l.length = bits ∧ digits n l.length = l.map UInt8.toNat := by
  induction l generalizing bits with
  | nil => simp [bitsWith, digits, eq_comm]
  | cons b l ih =>
    have hb := h b List.mem_cons_self
    have hdiv : n / 64 ^ (l.length + 1) = n / 64 ^ l.length / 64 := by
      rw [Nat.pow_succ, Nat.div_div_eq_div_mul]
    rw [bitsWith, ih fun b hb => h b (List.mem_cons_of_mem _ hb), List.length_cons, hdiv, digits, digit,
      List.map_cons, List.cons.injEq, ← and_assoc]
    refine and_congr_left fun _ => ?_
    omega

namespace Started

variable {s : Started} {piece : List UInt8} {b : UInt8}

/-- Whether octets are what is still to come. -/
def Fits (s : Started) : List UInt8 → Prop
  | [] => False
  | b :: following => (s.least ≤ b ∧ b ≤ s.greatest) ∧ following.length = s.more ∧
      ∀ x ∈ following, 0x80 ≤ x ∧ x ≤ 0xBF

theorem fits_iff (hleast : 0x80 ≤ s.least) (hgreatest : s.greatest ≤ 0xBF) {l : List UInt8} {n : Nat} :
    s.Fits l ∧ n = bitsWith l s.bits ↔
      (n / 64 ^ (s.more + 1) = s.bits ∧ s.least.toNat ≤ digit n s.more ∧
        digit n s.more ≤ s.greatest.toNat) ∧ digits n (s.more + 1) = l.map UInt8.toNat := by
  rw [UInt8.le_iff_toNat_le] at hleast hgreatest
  cases l with
  | nil => simp [Fits, digits]
  | cons b l =>
    simp only [Fits, UInt8.le_iff_toNat_le]
    constructor
    · rintro ⟨⟨⟨hl, hg⟩, hlength, hall⟩, hn⟩
      have hb : 0x80 ≤ b.toNat ∧ b.toNat ≤ 0xBF := ⟨Nat.le_trans hleast hl, Nat.le_trans hg hgreatest⟩
      obtain ⟨hbits, hdigits⟩ := (bitsWith_eq_iff (List.forall_mem_cons.2 ⟨hb, hall⟩)).1 hn.symm
      rw [List.length_cons, hlength] at hbits hdigits
      rw [← (List.cons.inj hdigits).1] at hl hg
      exact ⟨⟨hbits, hl, hg⟩, hdigits⟩
    · rintro ⟨⟨hbits, hl, hg⟩, hdigits⟩
      -- The octets are digits, so all but the first are as free as `Fits` lets them be.
      have hall : ∀ x ∈ b :: l, 0x80 ≤ x.toNat ∧ x.toNat ≤ 0xBF := fun x hx =>
        digits_bounds (hdigits ▸ List.mem_map_of_mem hx)
      have hlength : l.length = s.more := by
        have := congrArg List.length hdigits
        rw [length_digits, List.length_map, List.length_cons] at this
        omega
      rw [(List.cons.inj hdigits).1] at hl hg
      refine ⟨⟨⟨hl, hg⟩, hlength, (List.forall_mem_cons.1 hall).2⟩, ((bitsWith_eq_iff hall).2 ?_).symm⟩
      rw [List.length_cons, hlength]
      exact ⟨hbits, hdigits⟩

/-- Whether a piece has started a character: what is still to come completes it to the encoding of the
character that the bits then are. -/
structure After (s : Started) (piece : List UInt8) : Prop where
  /-- It is not empty. -/
  ne_nil : piece ≠ []
  /-- There is an octet that can come next. -/
  range : s.least ≤ s.greatest
  /-- The encodings that start with the piece. -/
  encoded : ∀ c following, utf8EncodeChar c = piece ++ following ↔
    s.Fits following ∧ c.toNat = bitsWith following s.bits
  /-- The bits are then those of a character. -/
  valid : ∀ following, s.Fits following → (bitsWith following s.bits).isValidChar

/-- What is still to come completes the piece. -/
theorem After.complete (h : s.After piece) {following : List UInt8} (hfits : s.Fits following) :
    utf8EncodeChar (Char.ofNat (bitsWith following s.bits)) = piece ++ following := by
  refine (h.encoded _ _).2 ⟨hfits, ?_⟩
  rw [Char.ofNat, dif_pos (h.valid _ hfits)]
  rfl

/-- Behind each octet that can come next, something can come. -/
theorem exists_fits (hb : s.least ≤ b ∧ b ≤ s.greatest) : ∃ following, s.Fits (b :: following) := by
  refine ⟨List.replicate s.more 0x80, hb, List.length_replicate, fun x hx => ?_⟩
  rw [List.eq_of_mem_replicate hx]
  decide

/-- The octets that can come next. -/
theorem After.starts_append_iff (h : s.After piece) :
    Starts (piece ++ [b]) ↔ s.least ≤ b ∧ b ≤ s.greatest := by
  constructor
  · rintro ⟨c, following, hc⟩
    rw [List.append_assoc, List.singleton_append] at hc
    exact ((h.encoded _ _).1 hc.symm).1.1
  · intro hb
    obtain ⟨following, hfits⟩ := exists_fits hb
    have hcomplete := h.complete hfits
    rw [List.append_cons] at hcomplete
    exact ⟨_, following, hcomplete.symm⟩

theorem After.starts (h : s.After piece) : Starts piece :=
  .of_append (h.starts_append_iff.2 ⟨UInt8.le_refl _, h.range⟩)

/-- A piece that has started a character does not start with one. -/
theorem After.not_encoded (h : s.After piece) (c : Char) : ¬utf8EncodeChar c <+: piece := by
  rintro ⟨rest, hrest⟩
  obtain ⟨following, hfits⟩ := exists_fits ⟨UInt8.le_refl _, h.range⟩
  have hcomplete := h.complete hfits
  rw [← hrest, List.append_assoc] at hcomplete
  obtain rfl := eq_of_utf8EncodeChar_append ((List.append_nil _).trans hcomplete)
  simpa using List.self_eq_append_right.1 hcomplete

/-- Where an octet follows that cannot come next, or none, the piece is broken. -/
theorem After.broken (h : s.After piece) {rest : List UInt8}
    (hrest : ∀ b, rest.head? = some b → ¬(s.least ≤ b ∧ b ≤ s.greatest)) : Broken piece rest := by
  have hlongest : ∀ longer, longer <+: piece ++ rest → Starts longer →
      longer.length ≤ piece.length := by
    intro longer hlonger hstarts
    rcases List.prefix_or_prefix_of_prefix hlonger (List.prefix_append piece rest) with
      hpiece | ⟨more, rfl⟩
    · exact hpiece.length_le
    · cases more with
      | nil => simp
      | cons b more =>
        -- A longer piece has the octet behind this one, which cannot come next.
        obtain ⟨rest', rfl⟩ := (List.prefix_append_right_inj piece).1 hlonger
        rw [List.append_cons] at hstarts
        exact absurd (h.starts_append_iff.1 hstarts.of_append) (hrest b rfl)
  refine ⟨fun c hc => ?_, .inr ⟨h.ne_nil, h.starts⟩, hlongest⟩
  exact h.not_encoded c (List.prefix_of_prefix_length_le hc (List.prefix_append _ _)
    (hlongest _ hc ⟨c, List.prefix_refl _⟩))

/-- An octet that can come next is part of what has been started. -/
theorem After.next (h : s.After piece) (hb : s.least ≤ b ∧ b ≤ s.greatest) {more : Nat}
    (hmore : s.more = more + 1) :
    After ⟨more, 0x80, 0xBF, s.bits * 64 + (b.toNat - 0x80)⟩ (piece ++ [b]) := by
  have hfits (following : List UInt8) :
      Fits ⟨more, 0x80, 0xBF, s.bits * 64 + (b.toNat - 0x80)⟩ following ↔ s.Fits (b :: following) := by
    cases following with
    | nil => simp [Fits, hmore]
    | cons x following => simp [Fits, hmore, hb, and_left_comm]
  refine ⟨by simp, by simp, fun c following => ?_, fun following hfollowing => ?_⟩
  · rw [List.append_assoc, List.singleton_append, h.encoded, hfits, bitsWith]
  · have hvalid := h.valid _ ((hfits following).1 hfollowing)
    rwa [bitsWith] at hvalid

/-- The last octet completes the character. -/
theorem After.last (h : s.After piece) (hb : s.least ≤ b ∧ b ≤ s.greatest) (hmore : s.more = 0) :
    utf8EncodeChar (Char.ofNat (s.bits * 64 + (b.toNat - 0x80))) = piece ++ [b] := by
  have hfits : s.Fits [b] := ⟨hb, hmore.symm, List.forall_mem_nil _⟩
  have hcomplete := h.complete hfits
  rwa [bitsWith, bitsWith] at hcomplete

end Started

/-! ## §4 First octets -/

/-- The first octets that others follow, and what they start.  The octet that comes next keeps out
encodings that are too long, surrogates, and numbers beyond the last. -/
inductive First (b : UInt8) : Started → Prop where
  /-- Two octets. -/
  | two : 0xC2 ≤ b.toNat → b.toNat < 0xE0 → First b ⟨0, 0x80, 0xBF, b.toNat - 0xC0⟩
  /-- Three octets, from the least number on. -/
  | threeLeast : b.toNat = 0xE0 → First b ⟨1, 0xA0, 0xBF, 0⟩
  /-- Three octets, before the surrogates. -/
  | threeSurrogates : b.toNat = 0xED → First b ⟨1, 0x80, 0x9F, 0xD⟩
  /-- Three octets. -/
  | three : 0xE0 < b.toNat → b.toNat < 0xF0 → b.toNat ≠ 0xED → First b ⟨1, 0x80, 0xBF, b.toNat - 0xE0⟩
  /-- Four octets, from the least number on. -/
  | fourLeast : b.toNat = 0xF0 → First b ⟨2, 0x90, 0xBF, 0⟩
  /-- Four octets. -/
  | four : 0xF0 < b.toNat → b.toNat < 0xF4 → First b ⟨2, 0x80, 0xBF, b.toNat - 0xF0⟩
  /-- Four octets, up to the last number. -/
  | fourLast : b.toNat = 0xF4 → First b ⟨2, 0x80, 0x8F, 4⟩

namespace First

variable {b : UInt8} {s : Started}

theorem bounds (h : First b s) : 0x80 ≤ s.least ∧ s.least ≤ s.greatest ∧ s.greatest ≤ 0xBF := by
  cases h <;> simp

/-- The numbers with the first octet are those with its bits and a right next octet. -/
theorem lead_iff (h : First b s) (n : Nat) : n.isValidChar ∧ lead n = b.toNat ↔
    n / 64 ^ (s.more + 1) = s.bits ∧ s.least.toNat ≤ digit n s.more ∧
      digit n s.more ≤ s.greatest.toNat := by
  -- In each row the bits fix the number up to its last digits, and the next octet does the rest: it keeps
  -- the number within one width and off the surrogates.
  constructor
  · rintro ⟨hn, hlead⟩
    have := width_cases hn
    cases h <;> simp [digit] <;> omega
  · intro hbits
    have hn : n.isValidChar := by
      cases h <;> simp [digit, Nat.isValidChar] at hbits ⊢ <;> omega
    have := width_cases hn
    refine ⟨hn, ?_⟩
    cases h <;> simp [digit] at hbits <;> omega

theorem width_eq (h : First b s) {n : Nat} (hn : n.isValidChar) (hlead : lead n = b.toNat) :
    width n = s.more + 1 := by
  have := width_cases hn
  cases h <;> dsimp <;> omega

theorem after (h : First b s) : s.After [b] where
  ne_nil := by simp
  range := h.bounds.2.1
  -- The first octet fixes the width, so there are as many digits as octets are to come.
  encoded c following := by
    have hvalid : c.toNat.isValidChar := c.valid
    rw [List.singleton_append, utf8EncodeChar_eq_cons_iff, Started.fits_iff h.bounds.1 h.bounds.2.2,
      ← h.lead_iff]
    constructor
    · rintro ⟨hlead, hdigits⟩
      rw [h.width_eq hvalid hlead] at hdigits
      exact ⟨⟨hvalid, hlead⟩, hdigits⟩
    · rintro ⟨⟨-, hlead⟩, hdigits⟩
      rw [h.width_eq hvalid hlead]
      exact ⟨hlead, hdigits⟩
  valid following hfits :=
    ((h.lead_iff _).2 ((Started.fits_iff h.bounds.1 h.bounds.2.2).1 ⟨hfits, rfl⟩).1).1

end First

theorem not_starts {b : UInt8} (hb : (0x80 ≤ b.toNat ∧ b.toNat < 0xC2) ∨ 0xF5 ≤ b.toNat) :
    ¬Starts [b] := by
  rintro ⟨c, rest, hc⟩
  have hlead := (utf8EncodeChar_eq_cons_iff.1 hc.symm).1
  have := width_cases (n := c.toNat) c.valid
  omega

/-- What a reader can take an octet for at which a character may start. -/
inductive Begun (read : List Char) (b : UInt8) : Reader → Prop where
  /-- A character. -/
  | char (c : Char) : utf8EncodeChar c = [b] → Begun read b ⟨c :: read, none⟩
  /-- A broken piece. -/
  | broken : ¬Starts [b] → Begun read b ⟨replacement :: read, none⟩
  /-- The first octet of more. -/
  | started (s : Started) : s.After [b] → Begun read b ⟨read, some s⟩

theorem begun_start (read : List Char) (b : UInt8) : Begun read b (.start read b) := by
  have hb := b.toNat_lt
  unfold Reader.start
  dsimp only
  split_ifs with hone hbroken htwo hE0 hED hthree hF0 hfour hF4
  -- One octet alone is a character of ASCII.
  · have hvalid : b.toNat.isValidChar := .inl (by omega)
    have hchar : (Char.ofNat b.toNat).toNat = b.toNat := by
      rw [Char.ofNat, dif_pos hvalid]
      rfl
    have hwidth : width b.toNat = 0 := if_pos hone
    refine .char _ (utf8EncodeChar_eq_cons_iff.2 ?_)
    rw [hchar, lead, hwidth]
    simp [mark, digits]
  · exact .broken (not_starts (by omega))
  · exact .started _ (First.two (by omega) htwo).after
  · exact .started _ (First.threeLeast hE0).after
  · exact .started _ (First.threeSurrogates hED).after
  · exact .started _ (First.three (by omega) hthree hED).after
  · exact .started _ (First.fourLeast hF0).after
  · exact .started _ (First.four (by omega) hfour).after
  · exact .started _ (First.fourLast hF4).after
  · exact .broken (not_starts (by omega))

/-! ## §5 The reader -/

theorem broken_singleton {b : UInt8} (h : ¬Starts [b]) (rest : List UInt8) : Broken [b] rest := by
  have hnil (piece : List UInt8) (hpiece : piece <+: [b] ++ rest) (hstarts : Starts piece) :
      piece = [] := by
    cases piece with
    | nil => rfl
    | cons x piece =>
      obtain ⟨rfl, -⟩ := List.cons_prefix_cons.1 hpiece
      rw [← List.singleton_append] at hstarts
      exact absurd hstarts.of_append h
  refine ⟨fun c hc => ?_, .inl rfl, fun longer hlonger hstarts => ?_⟩
  · exact absurd (hnil _ hc ⟨c, List.prefix_refl _⟩) String.utf8EncodeChar_ne_nil
  · rw [hnil longer hlonger hstarts]
    exact Nat.zero_le _

namespace Reader

variable {r : Reader} {taken : List UInt8}

/-- Whether a piece is what a reader has started. -/
def Holds (r : Reader) (piece : List UInt8) : Prop :=
  match r.started with
  | none => piece = []
  | some s => s.After piece

/-- What octets read as once they have been taken: the characters that have been read, and what the piece
that has been started reads as with the octets behind it. -/
def Took (r : Reader) (taken : List UInt8) : Prop :=
  ∃ piece, r.Holds piece ∧ ∀ rest cs, Lossy (piece ++ rest) cs →
    Lossy (taken ++ rest) (r.read.reverse ++ cs)

/-- An octet is taken where a character may start. -/
theorem took_start {read : List Char} {b : UInt8} (h : ∀ rest cs, Lossy (b :: rest) cs →
    Lossy (taken ++ b :: rest) (read.reverse ++ cs)) : (start read b).Took (taken ++ [b]) := by
  have hreads (rest : List UInt8) (cs : List Char) (hcs : Lossy (b :: rest) cs) :
      Lossy (taken ++ [b] ++ rest) (read.reverse ++ cs) := by
    rw [← List.append_cons]
    exact h rest cs hcs
  -- From here on it matters only what the reader can have taken the octet for.
  have hbegun := begun_start read b
  generalize start read b = r at hbegun ⊢
  cases hbegun with
  | char c hc =>
    refine ⟨[], rfl, fun rest cs hcs => ?_⟩
    have hchar := Lossy.char c hcs
    rw [hc] at hchar
    rw [List.reverse_cons, ← List.append_cons read.reverse]
    exact hreads _ _ hchar
  | broken hnot =>
    refine ⟨[], rfl, fun rest cs hcs => ?_⟩
    rw [List.reverse_cons, ← List.append_cons read.reverse]
    exact hreads _ _ (.broken (broken_singleton hnot rest) hcs)
  | started s hs => exact ⟨[b], hs, hreads⟩

/-- A reader takes an octet. -/
theorem Took.step (h : r.Took taken) (b : UInt8) : (r.step b).Took (taken ++ [b]) := by
  obtain ⟨piece, hpiece, hreads⟩ := h
  obtain ⟨read, _ | s⟩ := r
  · obtain rfl : piece = [] := hpiece
    exact took_start fun rest cs hcs => hreads (b :: rest) cs hcs
  · have hs : s.After piece := hpiece
    rw [Reader.step]
    dsimp only
    by_cases hb : s.least ≤ b ∧ b ≤ s.greatest
    · rw [if_pos (by simpa using hb)]
      cases hmore : s.more with
      | zero =>
        -- The character is complete, and nothing is left started.
        refine ⟨[], rfl, fun rest cs hcs => ?_⟩
        have hchar := Lossy.char (Char.ofNat (s.bits * 64 + (b.toNat - 0x80))) hcs
        rw [hs.last hb hmore, List.append_assoc] at hchar
        rw [List.append_assoc, List.reverse_cons, ← List.append_cons read.reverse]
        exact hreads _ _ hchar
      | succ more =>
        refine ⟨_, hs.next hb hmore, fun rest cs hcs => ?_⟩
        rw [List.append_assoc] at hcs ⊢
        exact hreads _ _ hcs
    · -- The piece is broken, and the octet is taken as if nothing had been started.
      rw [if_neg (by simpa using hb)]
      refine took_start fun rest cs hcs => ?_
      have hbroken : Broken piece (b :: rest) := hs.broken (by simpa using hb)
      rw [List.reverse_cons, ← List.append_cons read.reverse]
      exact hreads _ _ (.broken hbroken hcs)

theorem Took.foldl (h : r.Took taken) (octets : List UInt8) :
    (octets.foldl Reader.step r).Took (taken ++ octets) := by
  induction octets generalizing r taken with
  | nil => simpa using h
  | cons b octets ih =>
    rw [List.append_cons]
    exact ih (h.step b)

/-- Once octets have ended, a reader has read what they read as. -/
theorem Took.finish (h : r.Took taken) : Lossy taken r.finish.reverse := by
  obtain ⟨piece, hpiece, hreads⟩ := h
  rw [← List.append_nil taken]
  obtain ⟨read, _ | s⟩ := r
  · obtain rfl : piece = [] := hpiece
    rw [Reader.finish, ← List.append_nil read.reverse]
    exact hreads [] [] .nil
  · have hs : s.After piece := hpiece
    rw [Reader.finish, List.reverse_cons]
    exact hreads [] _ (.broken (hs.broken (by simp)) .nil)

end Reader

/-! ## §6 Byte arrays -/

theorem foldlM_loop {β : Type} (f : β → UInt8 → β) (octets : ByteArray) (left pos : Nat) (acc : β)
    (h : octets.size ≤ left + pos) :
    Id.run (ByteArray.foldlM.loop (m := Id) (fun acc b => pure (f acc b)) octets octets.size
      (Nat.le_refl _) left pos acc) = (octets.data.toList.drop pos).foldl f acc := by
  induction left generalizing pos acc with
  | zero =>
    have hpos : octets.data.toList.length ≤ pos := by simpa using h
    rw [ByteArray.foldlM.loop, dif_neg (by omega), List.drop_eq_nil_of_le hpos]
    rfl
  | succ left ih =>
    rw [ByteArray.foldlM.loop]
    split
    · rename_i hlt
      have hpos : pos < octets.data.toList.length := by simpa using hlt
      rw [List.drop_eq_getElem_cons hpos, List.foldl_cons]
      exact ih _ _ (by omega)
    · rename_i hle
      have hpos : octets.data.toList.length ≤ pos := by simpa using hle
      rw [List.drop_eq_nil_of_le hpos]
      rfl

theorem foldl_eq_foldl_toList {β : Type} (f : β → UInt8 → β) (acc : β) (octets : ByteArray) :
    octets.foldl f acc = octets.data.toList.foldl f acc := by
  unfold ByteArray.foldl ByteArray.foldlM
  rw [dif_pos (Nat.le_refl _)]
  exact foldlM_loop f octets _ 0 acc (by simp)

/-- **What octets read as.** -/
theorem decodeLossy_eq_iff {octets : ByteArray} {text : String} :
    decodeLossy octets = text ↔ Lossy octets.data.toList text.toList := by
  have hreads : Lossy octets.data.toList (decodeLossy octets).toList := by
    have hnothing : Reader.Took ⟨[], none⟩ [] := ⟨[], rfl, fun _ _ hcs => hcs⟩
    rw [decodeLossy, decodeReversed, foldl_eq_foldl_toList, String.toList_ofList]
    exact (hnothing.foldl octets.data.toList).finish
  exact ⟨fun h => h ▸ hreads, fun h => String.toList_inj.1 (hreads.unique h)⟩

/-- The octets of a text read as that text. -/
theorem decodeLossy_toByteArray (text : String) : decodeLossy text.toByteArray = text := by
  have hlossy (cs : List Char) : Lossy (cs.flatMap utf8EncodeChar) cs := by
    induction cs with
    | nil => exact .nil
    | cons c cs ih => exact .char c ih
  rw [decodeLossy_eq_iff]
  have hdata : text.toByteArray.data.toList = text.toList.flatMap utf8EncodeChar := by
    rw [← String.utf8Encode_toList, List.utf8Encode, List.data_toByteArray]
  rw [hdata]
  exact hlossy _

end Stencil.Text.Utf8
