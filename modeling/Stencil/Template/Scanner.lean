import Stencil.Template.Token
import Stencil.Text.Blank
import Stencil.Text.Bytes

/-!
# Scanning templates

The grammar of tokens:

    token    = OPEN name (blank+ argument)* blank* (":" body)? CLOSE
    argument = key "=" (quoted | bare) | quoted | word
    body     = (character | token)*

`OPEN` and `CLOSE` are two opening and two closing braces.  The first `CLOSE` outside a nested token
ends a body, and an `OPEN` in a body must start a well-formed token whose own body holds no `OPEN`.
Where no token starts at an `OPEN`, the scan resumes one character later, so tokens inside a broken
one are still found.

Each scanner takes the text still to be read and gives back what follows the part it has read;
`…_length` lemmas say that the rest is shorter, which is why the scans end.
-/

namespace Stencil.Template

open Stencil.Text

/-! ## Arguments -/

/-- The characters of argument keys. -/
def isKeyChar (c : Char) : Bool := c.isAlphanum || c == '_' || c == '-'

/-- The characters of words and of values without quotes. -/
def isBareChar (c : Char) : Bool :=
  !isBlank c && c != ':' && c != '{' && c != '}' && c != '"' && c != '='

/-- Reads a quoted text after its opening quote: the text, and what follows the closing quote.  A
backslash takes the next character as it is. -/
def scanQuoted : List Char → Option (List Char × List Char)
  | [] => none
  | '"' :: rest => some ([], rest)
  | '\\' :: c :: rest => (scanQuoted rest).map fun (text, after) => (c :: text, after)
  | c :: rest =>
    -- A backslash gets here only at the end of the text.
    if c = '\\' then none else (scanQuoted rest).map fun (text, after) => (c :: text, after)

/-- An argument as it is read. -/
inductive Argument where
  /-- A word or quoted text without a key. -/
  | word (text : String)
  /-- A value under a key. -/
  | named (key value : String)

/-- Adds an argument that has been read. -/
def Arguments.add (args : Arguments) : Argument → Arguments
  | .word text => args.addWord text
  | .named key value => args.setNamed key value

/-- Reads a value: quoted, or as many bare characters as there are. -/
def scanValue (cs : List Char) : Option (List Char × List Char) :=
  match cs with
  | '"' :: rest => scanQuoted rest
  | _ => some (cs.takeWhile isBareChar, cs.dropWhile isBareChar)

/-- Reads one argument. -/
def scanArgument (cs : List Char) : Option (Argument × List Char) :=
  match cs with
  | '"' :: rest => (scanQuoted rest).map fun (text, after) => (.word (.ofList text), after)
  | _ =>
    -- Without an equals sign behind it what looks like a key is the start of a word.
    let key := cs.takeWhile isKeyChar
    match key, cs.dropWhile isKeyChar with
    | _ :: _, '=' :: rest =>
      (scanValue rest).map fun (value, after) => (.named (.ofList key) (.ofList value), after)
    | _, _ =>
      match cs.takeWhile isBareChar with
      | [] => none
      | c :: word => some (.word (.ofList (c :: word)), cs.dropWhile isBareChar)

theorem scanQuoted_length {cs text rest : List Char} (h : scanQuoted cs = some (text, rest)) :
    rest.length < cs.length := by
  fun_induction scanQuoted cs generalizing text rest with
  | case1 => simp at h
  | case2 r =>
    simp only [Option.some.injEq, Prod.mk.injEq] at h
    simp [← h.2]
  | case3 c r ih =>
    obtain ⟨⟨t, a⟩, ht, he⟩ := Option.map_eq_some_iff.1 h
    have := ih ht
    simp only [Prod.mk.injEq] at he
    simp only [List.length_cons, ← he.2]
    omega
  | case4 => simp at h
  | case5 c r _ _ _ ih =>
    obtain ⟨⟨t, a⟩, ht, he⟩ := Option.map_eq_some_iff.1 h
    have := ih ht
    simp only [Prod.mk.injEq] at he
    simp only [List.length_cons, ← he.2]
    omega

theorem length_dropWhile_le {α : Type} (p : α → Bool) (l : List α) :
    (l.dropWhile p).length ≤ l.length :=
  (List.dropWhile_sublist p).length_le

theorem scanValue_length {cs text rest : List Char} (h : scanValue cs = some (text, rest)) :
    rest.length ≤ cs.length := by
  unfold scanValue at h
  split at h
  · have := scanQuoted_length h
    simp only [List.length_cons]
    omega
  · simp only [Option.some.injEq, Prod.mk.injEq] at h
    rw [← h.2]
    exact length_dropWhile_le _ _

theorem scanArgument_length {cs rest : List Char} {a : Argument}
    (h : scanArgument cs = some (a, rest)) : rest.length ≤ cs.length := by
  unfold scanArgument at h
  split at h
  · obtain ⟨⟨t, r⟩, ht, he⟩ := Option.map_eq_some_iff.1 h
    have := scanQuoted_length ht
    simp only [Prod.mk.injEq] at he
    simp only [List.length_cons, ← he.2]
    omega
  · dsimp only at h
    split at h
    · rename_i _ _ after _ hd
      obtain ⟨⟨t, r⟩, ht, he⟩ := Option.map_eq_some_iff.1 h
      have h₁ := scanValue_length ht
      have h₂ := length_dropWhile_le isKeyChar cs
      simp only [Prod.mk.injEq] at he
      rw [hd, List.length_cons] at h₂
      rw [← he.2]
      omega
    · split at h
      · simp at h
      · simp only [Option.some.injEq, Prod.mk.injEq] at h
        rw [← h.2]
        exact length_dropWhile_le _ _

/-! ## Headers -/

/-- How the part of a token before its body ends. -/
inductive HeaderEnd where
  /-- With the closing braces: there is no body. -/
  | closed
  /-- With a colon: a body follows. -/
  | colon
  deriving DecidableEq, Repr

/-- Reads arguments up to the colon or the closing braces. -/
def scanArguments (args : Arguments) (cs : List Char) :
    Option (Arguments × HeaderEnd × List Char) :=
  match cs with
  | '}' :: '}' :: rest => some (args, .closed, rest)
  | ':' :: rest => some (args, .colon, rest)
  | c :: rest =>
    if isBlank c then
      match _h : trimLeft rest with
      | '}' :: '}' :: after => some (args, .closed, after)
      | ':' :: after => some (args, .colon, after)
      | start =>
        match _h' : scanArgument start with
        | none => none
        | some (a, after) => scanArguments (args.add a) after
    else none
  | [] => none
  termination_by cs.length
  decreasing_by
    have h₁ := scanArgument_length _h'
    have h₂ := length_dropWhile_le isBlank rest
    rw [show rest.dropWhile isBlank = trimLeft rest from rfl, _h] at h₂
    simp only [List.length_cons]
    omega

/-- What stands before a token's body. -/
structure Header where
  /-- The directive's name. -/
  name : String
  /-- The arguments. -/
  args : Arguments
  /-- Whether a body follows. -/
  ending : HeaderEnd

/-- Reads a name and arguments, after the opening braces. -/
def scanHeader (cs : List Char) : Option (Header × List Char) :=
  match cs.takeWhile isNameChar with
  | [] => none
  | c :: name =>
    (scanArguments .none (cs.dropWhile isNameChar)).map fun (args, ending, rest) =>
      (⟨.ofList (c :: name), args, ending⟩, rest)

theorem scanArguments_length {args args' : Arguments} {ending : HeaderEnd} {cs rest : List Char}
    (h : scanArguments args cs = some (args', ending, rest)) : rest.length < cs.length := by
  fun_induction scanArguments args cs with
  | case1 args r =>
    simp only [Option.some.injEq, Prod.mk.injEq] at h
    simp only [← h.2.2, List.length_cons]; omega
  | case2 args r =>
    simp only [Option.some.injEq, Prod.mk.injEq] at h
    simp [← h.2.2]
  | case3 args c r _ _ _ after heq =>
    simp only [Option.some.injEq, Prod.mk.injEq] at h
    have h₂ := length_dropWhile_le isBlank r
    rw [show r.dropWhile isBlank = trimLeft r from rfl, heq] at h₂
    simp only [List.length_cons] at h₂
    simp only [← h.2.2, List.length_cons]; omega
  | case4 args c r _ _ _ after heq =>
    simp only [Option.some.injEq, Prod.mk.injEq] at h
    have h₂ := length_dropWhile_le isBlank r
    rw [show r.dropWhile isBlank = trimLeft r from rfl, heq] at h₂
    simp only [List.length_cons] at h₂
    simp only [← h.2.2, List.length_cons]; omega
  | case5 => simp at h
  | case6 args c r _ _ _ a after _ _ hs ih =>
    have h₀ := ih h
    have h₁ := scanArgument_length hs
    have h₂ := length_dropWhile_le isBlank r
    rw [show r.dropWhile isBlank = trimLeft r from rfl] at h₂
    simp only [List.length_cons]; omega
  | case7 => simp at h
  | case8 => simp at h

theorem scanHeader_length {cs rest : List Char} {header : Header}
    (h : scanHeader cs = some (header, rest)) : rest.length < cs.length := by
  unfold scanHeader at h
  split at h
  · simp at h
  · obtain ⟨⟨args, ending, r⟩, ha, he⟩ := Option.map_eq_some_iff.1 h
    have h₁ := scanArguments_length ha
    have h₂ := length_dropWhile_le isNameChar cs
    simp only [Prod.mk.injEq] at he
    rw [← he.2]
    omega

/-! ## Tokens -/

/-- The part of a text that has been read, given what follows it. -/
def consumed (cs rest : List Char) : List Char := cs.take (cs.length - rest.length)

/-- The token read from a text that starts at a byte position. -/
def Header.token (header : Header) (body : Option (List Char)) (pos : Nat) (cs rest : List Char) :
    Token :=
  let raw := consumed cs rest
  { name := header.name, args := header.args, body := body.map .ofList, raw := .ofList raw,
    span := ⟨pos, pos + byteLength raw⟩ }

/-- Reads a body that holds no token, up to and with the closing braces. -/
def scanPlainBody : List Char → Option (List Char × List Char)
  | '{' :: '{' :: _ => none
  | '}' :: '}' :: rest => some ([], rest)
  | c :: rest => (scanPlainBody rest).map fun (body, after) => (c :: body, after)
  | [] => none

/-- Reads a token whose body holds no token. -/
def scanInner (pos : Nat) (cs : List Char) : Option (Token × List Char) :=
  match cs with
  | '{' :: '{' :: inside =>
    match scanHeader inside with
    | none => none
    | some (header, rest) =>
      match header.ending with
      | .closed => some (header.token none pos cs rest, rest)
      | .colon =>
        (scanPlainBody rest).map fun (body, after) => (header.token (some body) pos cs after, after)
  | _ => none

theorem scanPlainBody_length {cs body rest : List Char}
    (h : scanPlainBody cs = some (body, rest)) : rest.length < cs.length := by
  fun_induction scanPlainBody cs generalizing body rest with
  | case1 => simp at h
  | case2 r =>
    simp only [Option.some.injEq, Prod.mk.injEq] at h
    simp only [← h.2, List.length_cons]; omega
  | case3 c r _ _ ih =>
    obtain ⟨⟨t, a⟩, ht, he⟩ := Option.map_eq_some_iff.1 h
    have := ih ht
    simp only [Prod.mk.injEq] at he
    simp only [List.length_cons, ← he.2]; omega
  | case4 => simp at h

theorem scanInner_length {pos : Nat} {cs rest : List Char} {t : Token}
    (h : scanInner pos cs = some (t, rest)) : rest.length < cs.length := by
  unfold scanInner at h
  split at h
  · rename_i inside
    split at h
    · simp at h
    · rename_i header r hh
      have h₁ := scanHeader_length hh
      split at h
      · simp only [Option.some.injEq, Prod.mk.injEq] at h
        simp only [← h.2, List.length_cons]; omega
      · obtain ⟨⟨b, a⟩, hb, he⟩ := Option.map_eq_some_iff.1 h
        have h₂ := scanPlainBody_length hb
        simp only [Prod.mk.injEq] at he
        simp only [← he.2, List.length_cons]; omega
  · simp at h

/-- Reads a body, up to and with the closing braces: its text, the tokens in it, and what follows.
-/
def scanBody (pos : Nat) (cs : List Char) : Option (List Char × List Token × List Char) :=
  match cs with
  | '{' :: '{' :: inside =>
    match _h : scanInner pos ('{' :: '{' :: inside) with
    | none => none
    | some (t, rest) =>
      (scanBody t.span.stop rest).map fun (body, nested, after) =>
        (consumed ('{' :: '{' :: inside) rest ++ body, t :: nested, after)
  | '}' :: '}' :: rest => some ([], [], rest)
  | c :: rest =>
    (scanBody (pos + c.utf8Size) rest).map fun (body, nested, after) => (c :: body, nested, after)
  | [] => none
  termination_by cs.length
  decreasing_by
    · exact scanInner_length _h
    · simp

/-- Reads a token: the token, the tokens in its body, and what follows. -/
def scanToken (pos : Nat) (cs : List Char) : Option (Token × List Token × List Char) :=
  match cs with
  | '{' :: '{' :: inside =>
    match scanHeader inside with
    | none => none
    | some (header, rest) =>
      match header.ending with
      | .closed => some (header.token none pos cs rest, [], rest)
      | .colon =>
        (scanBody (pos + byteLength (consumed cs rest)) rest).map fun (body, nested, after) =>
          (header.token (some body) pos cs after, nested, after)
  | _ => none

theorem scanBody_length {pos : Nat} {cs body rest : List Char} {nested : List Token}
    (h : scanBody pos cs = some (body, nested, rest)) : rest.length < cs.length := by
  fun_induction scanBody pos cs generalizing body nested rest with
  | case1 => simp at h
  | case2 pos r t after hi ih =>
    obtain ⟨⟨b, n, a⟩, hb, he⟩ := Option.map_eq_some_iff.1 h
    have h₁ := ih hb
    have h₂ := scanInner_length hi
    simp only [Prod.mk.injEq] at he
    rw [← he.2.2]; omega
  | case3 pos r =>
    simp only [Option.some.injEq, Prod.mk.injEq] at h
    simp only [← h.2.2, List.length_cons]; omega
  | case4 pos c r _ _ ih =>
    obtain ⟨⟨b, n, a⟩, hb, he⟩ := Option.map_eq_some_iff.1 h
    have := ih hb
    simp only [Prod.mk.injEq] at he
    simp only [List.length_cons, ← he.2.2]; omega
  | case5 => simp at h

theorem scanToken_length {pos : Nat} {cs rest : List Char} {t : Token} {nested : List Token}
    (h : scanToken pos cs = some (t, nested, rest)) : rest.length < cs.length := by
  unfold scanToken at h
  split at h
  · rename_i inside
    split at h
    · simp at h
    · rename_i header r hh
      have h₁ := scanHeader_length hh
      split at h
      · simp only [Option.some.injEq, Prod.mk.injEq] at h
        simp only [← h.2.2, List.length_cons]; omega
      · obtain ⟨⟨b, n, a⟩, hb, he⟩ := Option.map_eq_some_iff.1 h
        have h₂ := scanBody_length hb
        simp only [Prod.mk.injEq] at he
        simp only [← he.2.2, List.length_cons]; omega
  · simp at h

/-! ## Templates -/

/-- The piece of text between two positions, if there is any. -/
def textPiece (start stop : Nat) : List Piece :=
  if start < stop then [.text ⟨start, stop⟩] else []

/-- The pieces of a text read from a position on, when the text since another position is still to
be given out. -/
def scanPieces (textStart pos : Nat) (cs : List Char) : List Piece :=
  match cs with
  | [] => textPiece textStart pos
  | c :: rest =>
    match _h : scanToken pos (c :: rest) with
    | some (t, nested, after) =>
      textPiece textStart pos ++ .token t nested :: scanPieces t.span.stop t.span.stop after
    | none => scanPieces textStart (pos + c.utf8Size) rest
  termination_by cs.length
  decreasing_by
    · exact scanToken_length _h
    · simp

/-- Splits a template into text and tokens. -/
def pieces (source : String) : List Piece := scanPieces 0 0 source.toList

end Stencil.Template
