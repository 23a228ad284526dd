import Mathlib.Data.List.DropRight
import Stencil.Text.Blank
import Stencil.Text.Search

/-!
# Trimming and Cutting Texts

Trimming a text twice is trimming it once.  What stands before and after a cut at a character has the
text as its whole, and the parts between the cuts at characters of a class have none of these.

Main statements: `trimChars_eq_self_iff`, `splitOnce_eq_some`, `splitWhere_append_cons` and
`not_cut_of_mem_splitWhere`.
-/

namespace Stencil.Text

/-! ## §1 Trimming -/

/-- Trimming changes nothing exactly if no blank is at either end. -/
theorem trimChars_eq_self_iff {cs : List Char} : trimChars cs = cs ↔
    (∀ c ∈ cs.head?, isBlank c = false) ∧ ∀ c ∈ cs.getLast?, isBlank c = false := by
  have hsub : trimChars cs = (cs.dropWhile isBlank).rdropWhile isBlank := rfl
  have hhead : cs.dropWhile isBlank = cs ↔ ∀ c ∈ cs.head?, isBlank c = false := by
    cases cs <;> simp [List.dropWhile_eq_self_iff]
  have hlast : cs.rdropWhile isBlank = cs ↔ ∀ c ∈ cs.getLast?, isBlank c = false := by
    rw [List.rdropWhile_eq_self_iff]
    cases cs with
    | nil => simp
    | cons c cs => simp [List.getLast?_eq_some_getLast]
  rw [← hhead, ← hlast, hsub]
  constructor
  · intro h
    -- What is dropped at one end is not put back at the other.
    have hlength := congrArg List.length h
    have hright := (List.rdropWhile_prefix isBlank (cs.dropWhile isBlank)).length_le
    have hleft : cs.dropWhile isBlank = cs :=
      (List.dropWhile_suffix isBlank).eq_of_length_le (by omega)
    exact ⟨hleft, by rwa [hleft] at h⟩
  · rintro ⟨hleft, hright⟩
    rw [hleft, hright]

theorem trimChars_trimChars (cs : List Char) : trimChars (trimChars cs) = trimChars cs := by
  have hsub : trimChars cs = (cs.dropWhile isBlank).rdropWhile isBlank := rfl
  rw [trimChars_eq_self_iff, hsub]
  constructor
  -- Trimming the end only shortens what is left when the start is trimmed, so the start stays.
  · intro c hc
    obtain ⟨rest, hrest⟩ := List.head?_eq_some_iff.1 hc
    obtain ⟨dropped, hprefix⟩ := List.rdropWhile_prefix isBlank (cs.dropWhile isBlank)
    have hidem := List.dropWhile_eq_self_iff.1 (List.dropWhile_idempotent isBlank cs)
    rw [hrest] at hprefix
    simpa only [← hprefix, List.cons_append, List.length_cons, Nat.zero_lt_succ, forall_const,
      List.getElem_cons_zero, Bool.not_eq_true] using hidem
  · intro c hc
    have hne : (cs.dropWhile isBlank).rdropWhile isBlank ≠ [] := by
      intro hnil
      rw [hnil] at hc
      exact absurd hc (by simp)
    rw [List.getLast?_eq_some_getLast hne, Option.mem_some_iff] at hc
    simpa [hc] using List.rdropWhile_last_not isBlank _ hne

theorem trimChars_subset (cs : List Char) : trimChars cs ⊆ cs :=
  ((List.rdropWhile_prefix isBlank _).sublist.trans (List.dropWhile_sublist isBlank)).subset

theorem trimChars_cons_of_isBlank {c : Char} (h : isBlank c = true) (cs : List Char) :
    trimChars (c :: cs) = trimChars cs := by
  rw [trimChars, trimLeft, List.dropWhile_cons_of_pos h]
  rfl

theorem trimChars_eq_nil_iff {cs : List Char} : trimChars cs = [] ↔ ∀ c ∈ cs, isBlank c = true := by
  rw [trimChars, trimRight, dropWhileRight, List.reverse_eq_nil_iff, List.dropWhile_eq_nil_iff]
  constructor
  · intro h
    rcases trimLeft_eq_nil_or_head cs with hnil | ⟨c, rest, hcons, hc⟩
    · exact List.dropWhile_eq_nil_iff.1 hnil
    · exact absurd (h c (by simp [hcons])) (by simp [hc])
  · intro h c hmem
    rw [trimLeft, List.dropWhile_eq_nil_iff.2 h] at hmem
    exact absurd hmem (by simp)

theorem isEmpty_trim (s : String) : (trim s).isEmpty = isBlankText s := by
  rw [Bool.eq_iff_iff, String.isEmpty_iff, trim, String.ofList_eq_empty_iff, trimChars_eq_nil_iff,
    isBlankText, List.all_eq_true]

/-! ## §2 Cutting at one character -/

/-- What stands before and after the first occurrence of a character. -/
theorem splitOnce_eq_some {c : Char} {cs before after : List Char}
    (h : splitOnce c cs = some (before, after)) : cs = before ++ c :: after ∧ c ∉ before := by
  unfold splitOnce at h
  induction cs generalizing before with
  | nil => exact absurd h (by simp)
  | cons d cs ih =>
    by_cases hd : d = c
    · subst hd
      rw [List.dropWhile_cons_of_neg (by simp), List.takeWhile_cons_of_neg (by simp)] at h
      obtain ⟨rfl, rfl⟩ := Prod.mk.inj (Option.some.inj h)
      exact ⟨rfl, List.not_mem_nil⟩
    · rw [List.dropWhile_cons_of_pos (by simpa using hd),
        List.takeWhile_cons_of_pos (by simpa using hd)] at h
      split at h
      · exact absurd h (by simp)
      · rename_i e rest hdrop
        obtain ⟨rfl, rfl⟩ := Prod.mk.inj (Option.some.inj h)
        obtain ⟨hcs, hnot⟩ := ih (by rw [hdrop])
        refine ⟨congrArg (d :: ·) hcs, ?_⟩
        rw [List.mem_cons, not_or]
        exact ⟨Ne.symm hd, hnot⟩

theorem splitOnce_cons_self (c : Char) (cs : List Char) : splitOnce c (c :: cs) = some ([], cs) := by
  simp [splitOnce]

theorem splitOnce_cons_of_ne {c d : Char} (h : d ≠ c) (cs : List Char) :
    splitOnce c (d :: cs) = (splitOnce c cs).map fun (before, after) => (d :: before, after) := by
  rw [splitOnce, splitOnce, List.dropWhile_cons_of_pos (by simpa using h),
    List.takeWhile_cons_of_pos (by simpa using h)]
  split <;> rfl

/-- What stands before and after the last occurrence of a character. -/
theorem splitLast_eq_some {c : Char} {cs before after : List Char}
    (h : splitLast c cs = some (before, after)) : cs = before ++ c :: after ∧ c ∉ after := by
  obtain ⟨⟨a, b⟩, hsplit, heq⟩ := Option.map_eq_some_iff.1 h
  obtain ⟨rfl, rfl⟩ := Prod.mk.inj heq
  obtain ⟨hcs, hnot⟩ := splitOnce_eq_some hsplit
  refine ⟨?_, by simpa using hnot⟩
  rw [← List.reverse_reverse cs, hcs]
  simp

/-! ## §3 Cutting at every character of a class -/

variable {p : Char → Bool}

theorem exists_splitWhere (p : Char → Bool) (cs : List Char) :
    ∃ part parts, splitWhere p cs = part :: parts := by
  induction cs with
  | nil => exact ⟨[], [], rfl⟩
  | cons c cs ih =>
    obtain ⟨part, parts, hparts⟩ := ih
    rw [splitWhere, hparts]
    split
    · exact ⟨_, _, rfl⟩
    · exact ⟨_, _, rfl⟩

theorem splitWhere_cons_of_neg {c : Char} (hc : p c = false) {cs part : List Char}
    {parts : List (List Char)} (h : splitWhere p cs = part :: parts) :
    splitWhere p (c :: cs) = (c :: part) :: parts := by
  rw [splitWhere, if_neg (by simp [hc]), h]

theorem splitWhere_append_cons {part : List Char} (hpart : ∀ c ∈ part, p c = false) {c : Char}
    (hc : p c = true) (cs : List Char) :
    splitWhere p (part ++ c :: cs) = part :: splitWhere p cs := by
  induction part with
  | nil => rw [List.nil_append, splitWhere, if_pos hc]
  | cons a part ih =>
    exact splitWhere_cons_of_neg (hpart a List.mem_cons_self)
      (ih fun b hb => hpart b (List.mem_cons_of_mem _ hb))

theorem splitWhere_of_forall {part : List Char} (hpart : ∀ c ∈ part, p c = false) :
    splitWhere p part = [part] := by
  induction part with
  | nil => rfl
  | cons a part ih =>
    exact splitWhere_cons_of_neg (hpart a List.mem_cons_self)
      (ih fun b hb => hpart b (List.mem_cons_of_mem _ hb))

theorem splitWhere_append {c : Char} (hc : p c = true) {after : List Char}
    (h : ∀ a ∈ after, p a = false) (before : List Char) :
    splitWhere p (before ++ c :: after) = splitWhere p before ++ [after] := by
  induction before with
  | nil => simp [splitWhere, hc, splitWhere_of_forall h]
  | cons b before ih =>
    obtain ⟨part, parts, hparts⟩ := exists_splitWhere p before
    rw [hparts] at ih
    cases hb : p b with
    | true =>
      rw [List.cons_append, splitWhere, if_pos hb, splitWhere, if_pos hb, ih, hparts]
      rfl
    | false =>
      rw [List.cons_append, splitWhere_cons_of_neg hb ih, splitWhere_cons_of_neg hb hparts]
      rfl

theorem not_cut_of_mem_splitWhere {cs part : List Char} (h : part ∈ splitWhere p cs) :
    ∀ c ∈ part, p c = false := by
  induction cs generalizing part with
  | nil =>
    rw [splitWhere, List.mem_singleton] at h
    simp [h]
  | cons a cs ih =>
    obtain ⟨first, parts, hparts⟩ := exists_splitWhere p cs
    cases ha : p a with
    -- A cut starts a new part; any other character joins the first one.
    | true =>
      rw [splitWhere, if_pos ha] at h
      rcases List.mem_cons.1 h with rfl | h
      · simp
      · exact ih h
    | false =>
      rw [splitWhere_cons_of_neg ha hparts] at h
      rw [hparts] at ih
      rcases List.mem_cons.1 h with rfl | h
      · intro c hc
        rcases List.mem_cons.1 hc with rfl | hc
        · exact ha
        · exact ih List.mem_cons_self c hc
      · exact ih (List.mem_cons_of_mem _ h)

end Stencil.Text
