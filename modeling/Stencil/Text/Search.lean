/-!
# Searching texts

Finding one text in another, cutting at it, and replacing it.  All scans run from left to right and
take occurrences that do not overlap.
-/

namespace Stencil.Text

/-- Whether one text occurs in another. -/
def isInfix (needle : List Char) : List Char → Bool
  | [] => needle.isEmpty
  | c :: rest => needle.isPrefixOf (c :: rest) || isInfix needle rest

/-- Whether a text occurs in another. -/
def occursIn (needle haystack : String) : Bool := isInfix needle.toList haystack.toList

/-- What stands before and after the first occurrence of a character. -/
def splitOnce (c : Char) (cs : List Char) : Option (List Char × List Char) :=
  match cs.dropWhile (· ≠ c) with
  | [] => none
  | _ :: rest => some (cs.takeWhile (· ≠ c), rest)

/-- What stands after an occurrence is shorter than the text. -/
theorem splitOnce_length {c : Char} {cs before after : List Char}
    (h : splitOnce c cs = some (before, after)) : after.length < cs.length := by
  have hle := (List.dropWhile_sublist (· ≠ c) (l := cs)).length_le
  unfold splitOnce at h
  split at h
  · exact absurd h (by simp)
  · rename_i rest hdrop
    rw [hdrop, List.length_cons] at hle
    rw [(Prod.mk.inj (Option.some.inj h)).2] at hle
    omega

/-- What stands before and after the last occurrence of a character. -/
def splitLast (c : Char) (cs : List Char) : Option (List Char × List Char) :=
  (splitOnce c cs.reverse).map fun (after, before) => (before.reverse, after.reverse)

/-- Cuts a text at every occurrence of a character of a class; there is one part more than there
are cuts. -/
def splitWhere (p : Char → Bool) (cs : List Char) : List (List Char) :=
  match cs with
  | [] => [[]]
  | c :: rest =>
    if p c then [] :: splitWhere p rest
    else match splitWhere p rest with
      | [] => [[c]]
      | part :: parts => (c :: part) :: parts

/-- Replaces each occurrence of a non-empty text. -/
def replaceAll (old new : List Char) (cs : List Char) : List Char :=
  match cs with
  | [] => []
  | c :: rest =>
    match old with
    | [] => cs
    | _ :: tail =>
      if old.isPrefixOf cs then new ++ replaceAll old new (rest.drop tail.length)
      else c :: replaceAll old new rest
  termination_by cs.length
  decreasing_by
    · simp only [List.length_drop, List.length_cons]; omega
    · simp

/-- A text written before each of several parts but the first. -/
def joinWith (separator : List Char) : List (List Char) → List Char
  | [] => []
  | [part] => part
  | part :: parts => part ++ separator ++ joinWith separator parts

/-- The parts of a text before, between and after the occurrences of a non-empty text. -/
def splitOnText (separator : List Char) (cs : List Char) : List (List Char) :=
  match cs with
  | [] => [[]]
  | c :: rest =>
    match separator with
    | [] => [cs]
    | _ :: tail =>
      if separator.isPrefixOf cs then [] :: splitOnText separator (rest.drop tail.length)
      else match splitOnText separator rest with
        | [] => [[c]]
        | part :: parts => (c :: part) :: parts
  termination_by cs.length
  decreasing_by
    · simp only [List.length_drop, List.length_cons]; omega
    · simp

end Stencil.Text
