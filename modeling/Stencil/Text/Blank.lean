/-!
# Blank characters

The characters that separate words: those with the Unicode property White_Space.  Trimming drops
them from both ends of a text and keeps those inside.
-/

namespace Stencil.Text

/-- The characters with the Unicode property White_Space. -/
def isBlank (c : Char) : Bool :=
  let n := c.toNat
  (9 ≤ n && n ≤ 13) || n == 0x20 || n == 0x85 || n == 0xA0 || n == 0x1680 ||
    (0x2000 ≤ n && n ≤ 0x200A) || n == 0x2028 || n == 0x2029 || n == 0x202F || n == 0x205F ||
    n == 0x3000

/-- Drops the blank characters at the start. -/
def trimLeft (cs : List Char) : List Char := cs.dropWhile isBlank

/-- Drops the characters of a class at the end. -/
def dropWhileRight (p : Char → Bool) (cs : List Char) : List Char := (cs.reverse.dropWhile p).reverse

/-- Drops the blank characters at the end. -/
def trimRight (cs : List Char) : List Char := dropWhileRight isBlank cs

/-- Drops the blank characters at both ends. -/
def trimChars (cs : List Char) : List Char := trimRight (trimLeft cs)

/-- A text without the blank characters at its ends. -/
def trim (s : String) : String := String.ofList (trimChars s.toList)

/-- Whether a text has blank characters only. -/
def isBlankText (s : String) : Bool := s.toList.all isBlank

@[simp] theorem trimLeft_nil : trimLeft [] = [] := rfl

/-- What is left after trimming the start is empty or starts with a character that is not blank. -/
theorem trimLeft_eq_nil_or_head (cs : List Char) :
    trimLeft cs = [] ∨ ∃ c rest, trimLeft cs = c :: rest ∧ isBlank c = false := by
  induction cs with
  | nil => exact Or.inl rfl
  | cons c rest ih =>
    simp only [trimLeft, List.dropWhile] at ih ⊢
    split
    · exact ih
    · rename_i h
      exact Or.inr ⟨c, rest, rfl, by simpa using h⟩

end Stencil.Text
