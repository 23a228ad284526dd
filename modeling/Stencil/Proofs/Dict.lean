import Stencil.Dict

/-!
# Adding Entries to Dictionaries

What a lookup gives after several entries were added, and that a dictionary is made again from its
entries.

Main statement: `Dict.ofList_entries`.
-/

namespace Stencil.Dict

variable {α : Type}

theorem get?_insertAll_of_ne {d : Dict α} {entries : List (String × α)} {key : String}
    (h : ∀ entry ∈ entries, entry.1 ≠ key) : (d.insertAll entries).get? key = d.get? key := by
  rw [insertAll]
  induction entries generalizing d with
  | nil => rfl
  | cons entry entries ih =>
    rw [List.foldl_cons, ih fun e he => h e (List.mem_cons_of_mem _ he), get?_insert,
      if_neg fun heq => h entry List.mem_cons_self heq.symm]

/-- What a key has after entries were added is the entries' own value, if they have one for it. -/
theorem get?_insertAll_of_mem {d d' : Dict α} {entries : List (String × α)} {key : String}
    (h : ∃ entry ∈ entries, entry.1 = key) :
    (d.insertAll entries).get? key = (d'.insertAll entries).get? key := by
  rw [insertAll, insertAll]
  induction entries generalizing d d' with
  | nil => exact absurd h (by simp)
  | cons entry entries ih =>
    rw [List.foldl_cons, List.foldl_cons]
    by_cases hrest : ∃ entry ∈ entries, entry.1 = key
    · exact ih hrest
    · -- Only the first entry has the key, so no later one changes what it put in.
      have hne : ∀ e ∈ entries, e.1 ≠ key := fun e he heq => hrest ⟨e, he, heq⟩
      have hkey : key = entry.1 := by
        obtain ⟨e, he, rfl⟩ := h
        rcases List.mem_cons.1 he with rfl | he
        · rfl
        · exact absurd rfl (hne e he)
      change ((d.insert entry.1 entry.2).insertAll entries).get? key =
        ((d'.insert entry.1 entry.2).insertAll entries).get? key
      rw [get?_insertAll_of_ne hne, get?_insertAll_of_ne hne, get?_insert, get?_insert, if_pos hkey,
        if_pos hkey]

/-- Adding entries leaves a value, or replaces it by that of an entry. -/
theorem get?_insertAll_or (d : Dict α) (entries : List (String × α)) (key : String) :
    (d.insertAll entries).get? key = d.get? key ∨
      ∃ entry ∈ entries, entry.1 = key ∧ (d.insertAll entries).get? key = some entry.2 := by
  unfold insertAll
  induction entries generalizing d with
  | nil => exact .inl rfl
  | cons entry entries ih =>
    rw [List.foldl_cons]
    rcases ih (d.insert entry.1 entry.2) with hsame | ⟨later, hlater, hkey, hvalue⟩
    · by_cases hkey : key = entry.1
      · refine .inr ⟨entry, List.mem_cons_self, hkey.symm, ?_⟩
        rw [hsame, get?_insert, if_pos hkey]
      · left
        rw [hsame, get?_insert, if_neg hkey]
    · exact .inr ⟨later, List.mem_cons_of_mem _ hlater, hkey, hvalue⟩

/-- Adding entries with increasing keys gives them their values. -/
theorem get?_insertAll_of_sorted {d : Dict α} {entries : List (String × α)}
    (h : entries.Pairwise fun a b => a.1 < b.1) (key : String) :
    (d.insertAll entries).get? key = (entries.lookup key).or (d.get? key) := by
  rw [insertAll]
  induction entries generalizing d with
  | nil => rfl
  | cons entry entries ih =>
    obtain ⟨k, v⟩ := entry
    obtain ⟨hfirst, hrest⟩ := List.pairwise_cons.1 h
    rw [List.foldl_cons, ih hrest, get?_insert, lookup_cons]
    by_cases hkey : key = k
    · rw [if_pos hkey, if_pos hkey, hkey, lookup_eq_none_of_lt hfirst]
      rfl
    · rw [if_neg hkey, if_neg hkey]

theorem ofList_entries (d : Dict α) : ofList d.entries = d := by
  refine ext_get? fun key => ?_
  rw [ofList, get?_insertAll_of_sorted d.sorted, get?_empty, Option.or_none]
  rfl

theorem get?_of_mem {d : Dict α} {entry : String × α} (h : entry ∈ d.entries) :
    d.get? entry.1 = some entry.2 := by
  have hsorted := d.sorted
  rw [get?]
  generalize d.entries = entries at h hsorted
  induction entries with
  | nil => exact absurd h List.not_mem_nil
  | cons first entries ih =>
    obtain ⟨hfirst, hrest⟩ := List.pairwise_cons.1 hsorted
    rw [lookup_cons]
    rcases List.mem_cons.1 h with rfl | h
    · exact if_pos rfl
    · have hne : entry.1 ≠ first.1 := fun heq => String.lt_irrefl first.1 (heq ▸ hfirst entry h)
      rw [if_neg hne]
      exact ih h hrest

end Stencil.Dict
