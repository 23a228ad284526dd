/-!
# Dictionaries in key order

A finite map from strings, kept as its entries in strictly increasing key order.  The order is part
of the type, so two dictionaries with the same entries are equal, and whatever is printed from one
comes out in the byte order of its keys: comparing strings character by character and comparing
their UTF-8 encodings byte by byte give the same order.

Main statements: `Dict.get?_insert`, `Dict.get?_erase` and `Dict.ext_get?`.
-/

namespace Stencil

universe u v

/-- A finite map from strings, its entries in strictly increasing key order. -/
structure Dict (α : Type u) where
  /-- The entries, smallest key first. -/
  entries : List (String × α)
  /-- Keys increase, so none is repeated. -/
  sorted : entries.Pairwise (fun a b => a.1 < b.1)

namespace Dict

variable {α : Type u}

/-! ## Entry lists -/

/-- Puts an entry at its place in a sorted list, replacing one with an equal key. -/
def insertEntry (key : String) (value : α) : List (String × α) → List (String × α)
  | [] => [(key, value)]
  | (k, v) :: rest =>
    if key < k then (key, value) :: (k, v) :: rest
    else if key = k then (key, value) :: rest
    else (k, v) :: insertEntry key value rest

/-- An entry after an insertion is the new one or an old one. -/
theorem mem_insertEntry {key : String} {value : α} {l : List (String × α)} {e : String × α}
    (h : e ∈ insertEntry key value l) : e = (key, value) ∨ e ∈ l := by
  induction l with
  | nil => simpa [insertEntry] using h
  | cons p rest ih =>
    simp only [insertEntry] at h
    split at h
    · simpa using h
    · split at h
      · rcases List.mem_cons.1 h with h | h
        · exact Or.inl h
        · exact Or.inr (List.mem_cons_of_mem _ h)
      · rcases List.mem_cons.1 h with h | h
        · exact Or.inr (h ▸ List.mem_cons_self)
        · rcases ih h with h | h
          · exact Or.inl h
          · exact Or.inr (List.mem_cons_of_mem _ h)

/-- Two strings neither of which precedes the other in the way tested are ordered the other way. -/
theorem lt_of_not_lt_of_ne {a b : String} (h : ¬a < b) (hne : a ≠ b) : b < a :=
  Decidable.byContradiction fun h' => hne (String.le_antisymm (String.not_lt.1 h') (String.not_lt.1 h))

/-- Insertion keeps a sorted list sorted. -/
theorem sorted_insertEntry (key : String) (value : α) {l : List (String × α)}
    (h : l.Pairwise (fun a b => a.1 < b.1)) :
    (insertEntry key value l).Pairwise (fun a b => a.1 < b.1) := by
  induction l with
  | nil => simp [insertEntry]
  | cons p rest ih =>
    obtain ⟨k, v⟩ := p
    rw [List.pairwise_cons] at h
    simp only [insertEntry]
    split
    · -- The new entry comes first: it is before the old first one, and so before all.
      rename_i hlt
      refine List.pairwise_cons.2 ⟨fun e he => ?_, List.pairwise_cons.2 h⟩
      rcases List.mem_cons.1 he with rfl | he
      · exact hlt
      · exact String.lt_trans hlt (h.1 e he)
    · split
      · rename_i _ heq
        subst heq
        exact List.pairwise_cons.2 ⟨h.1, h.2⟩
      · -- It comes later, and what is inserted behind the first entry is greater than that.
        rename_i hlt hne
        refine List.pairwise_cons.2 ⟨fun e he => ?_, ih h.2⟩
        rcases mem_insertEntry he with rfl | he
        · exact lt_of_not_lt_of_ne hlt hne
        · exact h.1 e he

/-! ## Operations -/

/-- The dictionary without entries. -/
def empty : Dict α := ⟨[], List.Pairwise.nil⟩

instance : Inhabited (Dict α) := ⟨empty⟩
instance : EmptyCollection (Dict α) := ⟨empty⟩

/-- The value under a key. -/
def get? (d : Dict α) (key : String) : Option α := d.entries.lookup key

/-- Whether a key has a value. -/
def contains (d : Dict α) (key : String) : Bool := (d.get? key).isSome

/-- Sets the value under a key. -/
def insert (d : Dict α) (key : String) (value : α) : Dict α :=
  ⟨insertEntry key value d.entries, sorted_insertEntry key value d.sorted⟩

/-- Drops a key; an absent key changes nothing. -/
def erase (d : Dict α) (key : String) : Dict α :=
  ⟨d.entries.filter (·.1 ≠ key), d.sorted.sublist List.filter_sublist⟩

/-- The keys, smallest first. -/
def keys (d : Dict α) : List String := d.entries.map (·.1)

/-- The number of entries. -/
def size (d : Dict α) : Nat := d.entries.length

/-- Whether there is no entry. -/
def isEmpty (d : Dict α) : Bool := d.entries.isEmpty

/-- Inserts entries one after the other, so the last of several with one key wins. -/
def insertAll (d : Dict α) (entries : List (String × α)) : Dict α :=
  entries.foldl (fun d e => d.insert e.1 e.2) d

/-- The dictionary of a list of entries, the last of several with one key winning. -/
def ofList (entries : List (String × α)) : Dict α := empty.insertAll entries

/-- Applies a function to every value. -/
def map {β : Type v} (f : α → β) (d : Dict α) : Dict β :=
  ⟨d.entries.map fun e => (e.1, f e.2), d.sorted.map _ fun _ _ h => h⟩

/-! ## Laws -/

/-- Two dictionaries with the same entries are equal. -/
@[ext] theorem ext {d e : Dict α} (h : d.entries = e.entries) : d = e := by
  cases d; cases e; simp_all

/-- Looking a key up in a list of entries, first entry first. -/
theorem lookup_cons (k k' : String) (v : α) (l : List (String × α)) :
    ((k', v) :: l).lookup k = if k = k' then some v else l.lookup k := by
  by_cases h : k = k'
  · simp [h]
  · have : (k == k') = false := by simpa using h
    simp [List.lookup_cons, this, h]

/-- A key smaller than all keys of a list has no value in it. -/
theorem lookup_eq_none_of_lt {key : String} {l : List (String × α)}
    (h : ∀ e ∈ l, key < e.1) : l.lookup key = none := by
  induction l with
  | nil => rfl
  | cons p rest ih =>
    obtain ⟨k, v⟩ := p
    have hne : key ≠ k := fun heq => String.lt_irrefl _ (heq ▸ h (k, v) List.mem_cons_self)
    rw [lookup_cons, if_neg hne, ih fun e he => h e (List.mem_cons_of_mem _ he)]

/-- Looking up after putting an entry at its place. -/
theorem lookup_insertEntry (key : String) (value : α) (l : List (String × α)) (k : String) :
    (insertEntry key value l).lookup k = if k = key then some value else l.lookup k := by
  induction l with
  | nil => rw [insertEntry, lookup_cons]
  | cons p rest ih =>
    obtain ⟨k', v'⟩ := p
    simp only [insertEntry]
    split
    · rw [lookup_cons]
    · split
      · rename_i _ heq
        subst heq
        rw [lookup_cons, lookup_cons]
        by_cases h : k = key <;> simp [h]
      · rename_i _ hne
        rw [lookup_cons, lookup_cons, ih]
        by_cases h : k = k'
        · -- The first entry has another key than the one put in.
          have : k ≠ key := fun hk => hne (hk ▸ h)
          rw [if_pos h, if_neg this, if_pos h]
        · rw [if_neg h, if_neg h]

/-- A lookup sees the last insertion under its key. -/
@[simp] theorem get?_insert (d : Dict α) (key : String) (value : α) (k : String) :
    (d.insert key value).get? k = if k = key then some value else d.get? k :=
  lookup_insertEntry key value d.entries k

@[simp] theorem get?_empty (k : String) : (empty : Dict α).get? k = none := rfl

/-- Looking up after dropping the entries of a key. -/
theorem lookup_filter_ne (key k : String) (l : List (String × α)) :
    (l.filter (·.1 ≠ key)).lookup k = if k = key then none else l.lookup k := by
  induction l with
  | nil => simp
  | cons p rest ih =>
    obtain ⟨k', v'⟩ := p
    by_cases hk' : k' = key
    · rw [List.filter_cons_of_neg (by simpa using hk'), ih, lookup_cons]
      by_cases h : k = key
      · simp [h]
      · have : k ≠ k' := fun heq => h (heq.trans hk')
        rw [if_neg h, if_neg h, if_neg this]
    · rw [List.filter_cons_of_pos (by simpa using hk'), lookup_cons, lookup_cons, ih]
      by_cases h : k = k'
      · simp [h, hk']
      · simp [h]

/-- A lookup after an erasure. -/
@[simp] theorem get?_erase (d : Dict α) (key : String) (k : String) :
    (d.erase key).get? k = if k = key then none else d.get? k :=
  lookup_filter_ne key k d.entries

/-- A sorted list has no value under a key smaller than its first one. -/
theorem not_lt_of_lookup {k k' : String} {v v' : α} {l : List (String × α)}
    (hl : ((k', v') :: l).Pairwise fun a b => a.1 < b.1)
    (h : ((k', v') :: l).lookup k = some v) : ¬k < k' := by
  intro hlt
  have hall : ∀ e ∈ (k', v') :: l, k < e.1 := by
    intro e he
    rcases List.mem_cons.1 he with rfl | he
    · exact hlt
    · exact String.lt_trans hlt ((List.pairwise_cons.1 hl).1 e he)
  rw [lookup_eq_none_of_lt hall] at h
  exact absurd h (by simp)

/-- Sorted lists of entries with the same lookups are equal. -/
theorem eq_of_lookup_eq {l m : List (String × α)} (hl : l.Pairwise fun a b => a.1 < b.1)
    (hm : m.Pairwise fun a b => a.1 < b.1) (h : ∀ k, l.lookup k = m.lookup k) : l = m := by
  have hfirst (k : String) (v : α) (l : List (String × α)) : ((k, v) :: l).lookup k = some v := by
    rw [lookup_cons, if_pos rfl]
  induction l generalizing m with
  | nil =>
    cases m with
    | nil => rfl
    | cons q m => exact absurd ((h q.1).trans (hfirst q.1 q.2 m)) (by simp)
  | cons p l ih =>
    obtain ⟨k, v⟩ := p
    cases m with
    | nil => exact absurd ((hfirst k v l).symm.trans (h k)) (by simp)
    | cons q m =>
      obtain ⟨k', v'⟩ := q
      -- Neither of the two first keys is smaller than the other, so they are one.
      have hnlt : ¬k < k' := not_lt_of_lookup hm ((h k).symm.trans (hfirst k v l))
      have hngt : ¬k' < k := not_lt_of_lookup hl ((h k').trans (hfirst k' v' m))
      obtain rfl : k = k' :=
        Decidable.byContradiction fun hne => hngt (lt_of_not_lt_of_ne hnlt hne)
      obtain rfl : v = v' :=
        Option.some.inj ((hfirst k v l).symm.trans ((h k).trans (hfirst k v' m)))
      -- Their key is in neither rest, so the rests have the same lookups too.
      rw [List.pairwise_cons] at hl hm
      refine congrArg ((k, v) :: ·) (ih hl.2 hm.2 fun j => ?_)
      by_cases hj : j = k
      · rw [hj, lookup_eq_none_of_lt hl.1, lookup_eq_none_of_lt hm.1]
      · have hrest := h j
        rwa [lookup_cons, if_neg hj, lookup_cons, if_neg hj] at hrest

/-- The entries of a dictionary are determined by its lookups. -/
theorem ext_get? {d e : Dict α} (h : ∀ k, d.get? k = e.get? k) : d = e :=
  ext (eq_of_lookup_eq d.sorted e.sorted h)

end Dict

end Stencil
