import Mathlib.Data.List.Nodup
import Stencil.Proofs.Store.Operations

/-!
# What a History of Calls Says of the Variables

A history is the list of the calls made on a store that started empty, the oldest first.  What it says
of the variables is read off the positions of the calls in it: a variable is alive if it was set after
its last deletion, the first such call gives its initial value, and the last call that set or reset it
gives its value and its place among the others.

The record list after each call says the same of the variables as the history with the call.

Main statements: `Remembers.unique` (a history determines the records) and `Remembers.next` (one call).
-/

namespace Stencil.Store

variable {σ : Type}

/-! ## §1 Calls -/

/-- A call of an operation of the store. -/
inductive Call where
  /-- Makes or changes a variable. -/
  | set (name value : String)
  /-- Reads a variable. -/
  | get (name : String)
  /-- Takes a variable back to its initial value. -/
  | reset (name : String)
  /-- Removes a variable. -/
  | delete (name : String)
  /-- Lists the variables. -/
  | list
  /-- Adds one to a counter. -/
  | increment (id : String)
  /-- Takes one from a counter. -/
  | decrement (id : String)
  /-- Reads a counter. -/
  | counter (id : String)
  deriving DecidableEq

/-- What a call gives. -/
inductive Answer where
  /-- Nothing but that it is done. -/
  | done
  /-- A text. -/
  | text (s : String)
  /-- Records. -/
  | records (records : List Record)
  /-- A number. -/
  | number (n : Int)

namespace Call

/-- Makes a call on a backend. -/
def perform (b : Backend σ) : Call → Action Failure σ Answer
  | set name value => do
    Store.set b name value
    return .done
  | get name => do return .text (← Store.get b name)
  | reset name => do return .text (← Store.reset b name)
  | delete name => do
    Store.delete b name
    return .done
  | list => do return .records (← Store.list b)
  | increment id => do return .text (← Store.increment b id)
  | decrement id => do return .text (← Store.decrement b id)
  | counter id => do return .number (← Store.counter b id)

/-- Whether a call is about variables, and not about a counter. -/
def isVariable : Call → Bool
  | set _ _ | get _ | reset _ | delete _ | list => true
  | increment _ | decrement _ | counter _ => false

/-- Whether a call sets a variable. -/
def isSet : Call → Bool
  | set _ _ => true
  | _ => false

/-- The records after a call. -/
def next (records : List Record) : Call → List Record
  | set name value => setIn records name value
  | reset name => ((resetIn? records name).map (·.2)).getD records
  | delete name => deleteIn records name
  | _ => records

end Call

/-! ## §2 Histories -/

section History

variable (h : List Call) (name : String)

/-- A variable is not deleted after a position. -/
def Kept (i : Nat) : Prop := ∀ j, i < j → h[j]? ≠ some (.delete name)

/-- A variable was set after its last deletion. -/
def Alive : Prop := ∃ i value, h[i]? = some (.set name value) ∧ Kept h name i

/-- A variable was made with a value at a position: by the first call that set it after its last
deletion. -/
def MadeAt (value : String) (i : Nat) : Prop :=
  h[i]? = some (.set name value) ∧ Kept h name i ∧ ∀ j value', j < i →
    h[j]? = some (.set name value') → ∃ k, j < k ∧ k < i ∧ h[k]? = some (.delete name)

/-- A call after a history sets a variable, or resets one that is alive. -/
def Touches (c : Call) : Prop := (∃ value, c = .set name value) ∨ (c = .reset name ∧ Alive h name)

/-- The call at a position sets a variable, or resets it when it is alive. -/
def TouchedAt (i : Nat) : Prop := ∃ c, h[i]? = some c ∧ Touches (h.take i) name c

/-- The call at a position is the last one that sets a variable, or resets it when it is alive. -/
def LastTouched (i : Nat) : Prop := TouchedAt h name i ∧ ∀ j, i < j → ¬TouchedAt h name j

end History

/-- A record is what a history says of its variable. -/
structure Recalls (h : List Call) (r : Record) : Prop where
  /-- The initial value is that of the first call that set it after its last deletion. -/
  made : ∃ i, MadeAt h r.name r.initial i
  /-- The value is that of the last call that set it, or the initial value if a reset came later. -/
  last : ∃ i, LastTouched h r.name i ∧ (h[i]? = some (.set r.name r.value) ∨
    (h[i]? = some (.reset r.name) ∧ r.value = r.initial))

/-- Records are what a history says of the variables. -/
structure Remembers (h : List Call) (records : List Record) : Prop where
  /-- No two are of one name. -/
  distinct : (records.map (·.name)).Nodup
  /-- There is one exactly for each variable that was set after its last deletion. -/
  alive : ∀ name, name ∈ records.map (·.name) ↔ Alive h name
  /-- Each is what the history says of its variable. -/
  recalls : ∀ r ∈ records, Recalls h r
  /-- They are in the order in which they were last set or reset. -/
  order : records.Pairwise fun r r' =>
    ∃ i j, LastTouched h r.name i ∧ LastTouched h r'.name j ∧ i < j

/-! ## §3 A history determines the records -/

theorem MadeAt.unique {h : List Call} {name value value' : String} {i i' : Nat}
    (hi : MadeAt h name value i) (hi' : MadeAt h name value' i') : value = value' := by
  -- Of two positions, the later one comes after a deletion behind the earlier one.
  have hle {v v' : String} {j j' : Nat} (hj : MadeAt h name v j) (hj' : MadeAt h name v' j') :
      j' ≤ j := by
    by_contra hlt
    obtain ⟨k, hjk, -, hk⟩ := hj'.2.2 j v (Nat.lt_of_not_le hlt) hj.1
    exact hj.2.1 k hjk hk
  obtain rfl := Nat.le_antisymm (hle hi' hi) (hle hi hi')
  have heq := hi.1.symm.trans hi'.1
  simpa using heq

theorem LastTouched.unique {h : List Call} {name : String} {i i' : Nat} (hi : LastTouched h name i)
    (hi' : LastTouched h name i') : i = i' := by
  rcases Nat.lt_trichotomy i i' with hlt | rfl | hlt
  · exact absurd hi'.1 (hi.2 i' hlt)
  · rfl
  · exact absurd hi.1 (hi'.2 i hlt)

theorem Recalls.unique {h : List Call} {r r' : Record} (hr : Recalls h r) (hr' : Recalls h r')
    (hname : r.name = r'.name) : r = r' := by
  obtain ⟨name, value, initial⟩ := r
  obtain ⟨name', value', initial'⟩ := r'
  obtain rfl : name = name' := hname
  obtain ⟨i, hmade⟩ := hr.made
  obtain ⟨i', hmade'⟩ := hr'.made
  obtain rfl : initial = initial' := hmade.unique hmade'
  obtain ⟨j, hlast, hvalue⟩ := hr.last
  obtain ⟨j', hlast', hvalue'⟩ := hr'.last
  obtain rfl := hlast.unique hlast'
  -- The last touch is one call: it sets the value, or resets it to the one at the start.
  have : value = value' := by
    rcases hvalue with hset | ⟨hreset, hinitial⟩
    · rcases hvalue' with hset' | ⟨hreset', -⟩
      · simpa using hset.symm.trans hset'
      · exact absurd (hset.symm.trans hreset') (by simp)
    · rcases hvalue' with hset' | ⟨-, hinitial'⟩
      · exact absurd (hreset.symm.trans hset') (by simp)
      · exact hinitial.trans hinitial'.symm
  rw [this]

theorem Remembers.unique {h : List Call} {records records' : List Record}
    (hr : Remembers h records) (hr' : Remembers h records') : records = records' := by
  have hsub {rs rs' : List Record} (hrs : Remembers h rs) (hrs' : Remembers h rs') (r : Record)
      (hmem : r ∈ rs) : r ∈ rs' := by
    obtain ⟨r', hmem', hname⟩ := List.mem_map.1
      ((hrs'.alive _).2 ((hrs.alive _).1 (List.mem_map_of_mem hmem)))
    rwa [(hrs.recalls r hmem).unique (hrs'.recalls r' hmem') hname.symm]
  have hperm : records.Perm records' :=
    (List.perm_ext_iff_of_nodup hr.distinct.of_map hr'.distinct.of_map).2
      fun r => ⟨hsub hr hr' r, hsub hr' hr r⟩
  refine hperm.eq_of_pairwise (fun r r' _ _ hlt hgt => ?_) hr.order hr'.order
  -- No record comes both before and after another.
  obtain ⟨i, j, hi, hj, hij⟩ := hlt
  obtain ⟨j', i', hj', hi', hji⟩ := hgt
  have := hi.unique hi'
  have := hj.unique hj'
  omega

/-! ## §4 One more call -/

section Concat

variable {h : List Call} {c : Call} {name : String}

theorem getElem?_concat_eq_some_iff {c' : Call} {i : Nat} :
    (h ++ [c])[i]? = some c' ↔ h[i]? = some c' ∨ (i = h.length ∧ c = c') := by
  rcases Nat.lt_trichotomy i h.length with hlt | rfl | hgt
  · rw [List.getElem?_append_left hlt]
    simp [Nat.ne_of_lt hlt]
  · simp
  · rw [List.getElem?_eq_none (by rw [List.length_append]; exact hgt),
      List.getElem?_eq_none (Nat.le_of_lt hgt)]
    simp [Nat.ne_of_gt hgt]

theorem lt_length_of_getElem? {i : Nat} (hi : h[i]? = some c) : i < h.length :=
  (List.getElem?_eq_some_iff.1 hi).1

theorem kept_concat_iff {i : Nat} :
    Kept (h ++ [c]) name i ↔ Kept h name i ∧ (i < h.length → c ≠ .delete name) := by
  simp only [Kept, ne_eq, getElem?_concat_eq_some_iff, not_or, not_and]
  constructor
  · exact fun hk => ⟨fun j hj => (hk j hj).1, fun hlt => (hk _ hlt).2 rfl⟩
  · rintro ⟨hk, hc⟩ j hj
    exact ⟨hk j hj, fun hlength => hc (hlength ▸ hj)⟩

theorem alive_concat_iff :
    Alive (h ++ [c]) name ↔ (∃ value, c = .set name value) ∨ (Alive h name ∧ c ≠ .delete name) := by
  constructor
  · rintro ⟨i, value, hi, hkept⟩
    rw [kept_concat_iff] at hkept
    rcases getElem?_concat_eq_some_iff.1 hi with hi | ⟨-, rfl⟩
    · exact .inr ⟨⟨i, value, hi, hkept.1⟩, hkept.2 (lt_length_of_getElem? hi)⟩
    · exact .inl ⟨value, rfl⟩
  · rintro (⟨value, rfl⟩ | ⟨⟨i, value, hi, hkept⟩, hc⟩)
    · refine ⟨h.length, value, by simp, fun j hj => ?_⟩
      rw [List.getElem?_eq_none (by rw [List.length_append]; exact hj)]
      simp
    · exact ⟨i, value, getElem?_concat_eq_some_iff.2 (.inl hi), kept_concat_iff.2 ⟨hkept, fun _ => hc⟩⟩

theorem Touches.unique {name' : String} (ht : Touches h name c) (ht' : Touches h name' c) :
    name = name' := by
  rcases ht with ⟨value, rfl⟩ | ⟨rfl, -⟩
  · rcases ht' with ⟨value', hc⟩ | ⟨hc, -⟩
    · exact (Call.set.inj hc).1
    · exact absurd hc (by simp)
  · rcases ht' with ⟨value', hc⟩ | ⟨hc, -⟩
    · exact absurd hc (by simp)
    · exact Call.reset.inj hc

theorem Touches.ne_delete (ht : Touches h name c) (name' : String) : c ≠ .delete name' := by
  rintro rfl
  rcases ht with ⟨value, hc⟩ | ⟨hc, -⟩ <;> exact absurd hc (by simp)

theorem touchedAt_concat_iff {i : Nat} :
    TouchedAt (h ++ [c]) name i ↔ TouchedAt h name i ∨ (i = h.length ∧ Touches h name c) := by
  simp only [TouchedAt, getElem?_concat_eq_some_iff]
  constructor
  · rintro ⟨c', hi | ⟨rfl, rfl⟩, ht⟩
    · rw [List.take_append_of_le_length (Nat.le_of_lt (lt_length_of_getElem? hi))] at ht
      exact .inl ⟨c', hi, ht⟩
    · rw [List.take_left] at ht
      exact .inr ⟨rfl, ht⟩
  · rintro (⟨c', hi, ht⟩ | ⟨rfl, ht⟩)
    · refine ⟨c', .inl hi, ?_⟩
      rwa [List.take_append_of_le_length (Nat.le_of_lt (lt_length_of_getElem? hi))]
    · refine ⟨c, .inr ⟨rfl, rfl⟩, ?_⟩
      rwa [List.take_left]

theorem lastTouched_length (hc : Touches h name c) : LastTouched (h ++ [c]) name h.length := by
  refine ⟨touchedAt_concat_iff.2 (.inr ⟨rfl, hc⟩), fun j hj ht => ?_⟩
  rcases touchedAt_concat_iff.1 ht with ⟨c', hi, -⟩ | ⟨rfl, -⟩
  · exact absurd (lt_length_of_getElem? hi) (Nat.not_lt_of_le (Nat.le_of_lt hj))
  · exact absurd hj (Nat.lt_irrefl _)

/-- The last call that touched a variable stays so after one that does not. -/
theorem LastTouched.concat {i : Nat} (hi : LastTouched h name i) (hc : ¬Touches h name c) :
    LastTouched (h ++ [c]) name i := by
  refine ⟨touchedAt_concat_iff.2 (.inl hi.1), fun j hj ht => ?_⟩
  rcases touchedAt_concat_iff.1 ht with ht | ⟨-, ht⟩
  · exact hi.2 j hj ht
  · exact hc ht

theorem LastTouched.lt_length {i : Nat} (hi : LastTouched h name i) : i < h.length := by
  obtain ⟨⟨c', hc', -⟩, -⟩ := hi
  exact lt_length_of_getElem? hc'

/-- Where a variable was made stays so until it is deleted. -/
theorem MadeAt.concat {value : String} {i : Nat} (hi : MadeAt h name value i)
    (hc : c ≠ .delete name) : MadeAt (h ++ [c]) name value i := by
  obtain ⟨hset, hkept, hfirst⟩ := hi
  refine ⟨getElem?_concat_eq_some_iff.2 (.inl hset), kept_concat_iff.2 ⟨hkept, fun _ => hc⟩, ?_⟩
  intro j value' hj hset'
  rcases getElem?_concat_eq_some_iff.1 hset' with hset' | ⟨rfl, -⟩
  · obtain ⟨k, hjk, hki, hk⟩ := hfirst j value' hj hset'
    exact ⟨k, hjk, hki, getElem?_concat_eq_some_iff.2 (.inl hk)⟩
  · exact absurd (Nat.lt_trans hj (lt_length_of_getElem? hset)) (Nat.lt_irrefl _)

/-- A variable that is not alive is made by the call that sets it. -/
theorem madeAt_length {value : String} (hdead : ¬Alive h name) :
    MadeAt (h ++ [.set name value]) name value h.length := by
  refine ⟨by simp, fun j hj => ?_, fun j value' hj hset => ?_⟩
  · rw [List.getElem?_eq_none (by rw [List.length_append]; exact hj)]
    simp
  · rcases getElem?_concat_eq_some_iff.1 hset with hset | ⟨rfl, -⟩
    · -- Since the variable is not alive, it was deleted after that.
      have hdeleted : ¬Kept h name j := fun hkept => hdead ⟨j, value', hset, hkept⟩
      simp only [Kept, ne_eq, not_forall, not_not] at hdeleted
      obtain ⟨k, hjk, hk⟩ := hdeleted
      exact ⟨k, hjk, lt_length_of_getElem? hk, getElem?_concat_eq_some_iff.2 (.inl hk)⟩
    · exact absurd hj (Nat.lt_irrefl _)

/-- A call that touches another variable leaves what is said of one. -/
theorem Recalls.concat {r : Record} (hr : Recalls h r) (htouch : ¬Touches h r.name c)
    (hdelete : c ≠ .delete r.name) : Recalls (h ++ [c]) r := by
  obtain ⟨i, hmade⟩ := hr.made
  obtain ⟨j, hlast, hvalue⟩ := hr.last
  refine ⟨⟨i, hmade.concat hdelete⟩, ⟨j, hlast.concat htouch, ?_⟩⟩
  exact hvalue.imp (fun hset => getElem?_concat_eq_some_iff.2 (.inl hset))
    (fun hreset => ⟨getElem?_concat_eq_some_iff.2 (.inl hreset.1), hreset.2⟩)

end Concat

/-! ## §5 One more record list -/

theorem mem_deleteIn {records : List Record} {name : String} {r : Record} :
    r ∈ deleteIn records name ↔ r ∈ records ∧ r.name ≠ name := by
  simp [deleteIn]

theorem map_name_deleteIn (records : List Record) (name : String) :
    (deleteIn records name).map (·.name) = (records.map (·.name)).filter (· != name) := by
  rw [deleteIn, List.filter_map]
  rfl

theorem deleteIn_eq_self {records : List Record} {name : String}
    (h : name ∉ records.map (·.name)) : deleteIn records name = records := by
  refine List.filter_eq_self.2 fun r hr => ?_
  have : r.name ≠ name := fun heq => h (heq ▸ List.mem_map_of_mem hr)
  simpa using this

theorem dropFirst_eq_deleteIn {records : List Record} (h : (records.map (·.name)).Nodup)
    (name : String) : dropFirst records name = deleteIn records name := by
  induction records with
  | nil => rfl
  | cons r records ih =>
    rw [List.map_cons, List.nodup_cons] at h
    rw [dropFirst, deleteIn]
    by_cases hr : r.name = name
    · rw [List.eraseP_cons_of_pos (by simpa using hr), List.filter_cons_of_neg (by simpa using hr)]
      exact (deleteIn_eq_self (hr ▸ h.1)).symm
    · rw [List.eraseP_cons_of_neg (by simpa using hr), List.filter_cons_of_pos (by simpa using hr)]
      exact congrArg (r :: ·) (ih h.2)

theorem find?_eq_some_iff {records : List Record} (h : (records.map (·.name)).Nodup) {name : String}
    {r : Record} : records.find? (·.name == name) = some r ↔ r ∈ records ∧ r.name = name := by
  induction records with
  | nil => simp
  | cons r' records ih =>
    rw [List.map_cons, List.nodup_cons] at h
    -- The names are distinct, so a record of the name further on is none.
    by_cases hr' : r'.name = name
    · rw [List.find?_cons_of_pos (by simpa using hr'), Option.some.injEq, List.mem_cons]
      constructor
      · rintro rfl
        exact ⟨.inl rfl, hr'⟩
      · rintro ⟨rfl | hr, hname⟩
        · rfl
        · exact absurd (hr' ▸ hname ▸ List.mem_map_of_mem hr) h.1
    · rw [List.find?_cons_of_neg (by simpa using hr'), ih h.2, List.mem_cons]
      constructor
      · exact fun ⟨hr, hname⟩ => ⟨.inr hr, hname⟩
      · rintro ⟨rfl | hr, hname⟩
        · exact absurd hname hr'
        · exact ⟨hr, hname⟩

namespace Remembers

variable {h : List Call} {records : List Record} {c : Call}

/-- Nothing was called, and there is no variable. -/
theorem nil : Remembers [] [] :=
  ⟨.nil, fun name => by simp [Alive], by simp, .nil⟩

theorem find?_eq_none_iff (hr : Remembers h records) {name : String} :
    records.find? (·.name == name) = none ↔ ¬Alive h name := by
  rw [← hr.alive, List.find?_eq_none, List.mem_map]
  simp

/-- The records of other variables say the same after a call. -/
theorem others (hr : Remembers h records) {name : String}
    (hc : ∀ other, other ≠ name → ¬Touches h other c ∧ c ≠ .delete other) :
    (∀ r ∈ deleteIn records name, Recalls (h ++ [c]) r) ∧
      (deleteIn records name).Pairwise fun r r' =>
        ∃ i j, LastTouched (h ++ [c]) r.name i ∧ LastTouched (h ++ [c]) r'.name j ∧ i < j := by
  refine ⟨fun r hmem => ?_, ?_⟩
  · obtain ⟨hmem, hname⟩ := mem_deleteIn.1 hmem
    exact (hr.recalls r hmem).concat (hc _ hname).1 (hc _ hname).2
  · refine (hr.order.filter _).imp_of_mem fun hmem hmem' hlast => ?_
    obtain ⟨i, j, hi, hj, hij⟩ := hlast
    exact ⟨i, j, hi.concat (hc _ (mem_deleteIn.1 hmem).2).1, hj.concat (hc _ (mem_deleteIn.1 hmem').2).1, hij⟩

/-- A call that touches no variable and deletes none that is alive changes nothing. -/
theorem of_quiet (hr : Remembers h records) (htouch : ∀ name, ¬Touches h name c)
    (hdelete : ∀ name, c = .delete name → ¬Alive h name) : Remembers (h ++ [c]) records := by
  have halive (name : String) : Alive (h ++ [c]) name ↔ Alive h name := by
    rw [alive_concat_iff]
    constructor
    · rintro (⟨value, hc⟩ | ⟨ha, -⟩)
      · exact absurd (.inl ⟨value, hc⟩) (htouch name)
      · exact ha
    · exact fun ha => .inr ⟨ha, fun hc => hdelete name hc ha⟩
  refine ⟨hr.distinct, fun name => (hr.alive name).trans (halive name).symm, fun r hmem => ?_, ?_⟩
  · have ha := (hr.alive r.name).1 (List.mem_map_of_mem hmem)
    exact (hr.recalls r hmem).concat (htouch _) fun hc => hdelete _ hc ha
  · exact hr.order.imp fun ⟨i, j, hi, hj, hij⟩ => ⟨i, j, hi.concat (htouch _), hj.concat (htouch _), hij⟩

/-- A call that touches one variable puts its record at the end. -/
theorem touched (hr : Remembers h records) (r : Record) (htouch : Touches h r.name c)
    (hrecalls : Recalls (h ++ [c]) r) : Remembers (h ++ [c]) (deleteIn records r.name ++ [r]) := by
  have hother (name : String) (hname : name ≠ r.name) : ¬Touches h name c :=
    fun ht => hname (ht.unique htouch)
  obtain ⟨hrecords, horder⟩ := hr.others fun name hname => ⟨hother name hname, htouch.ne_delete name⟩
  refine ⟨?_, fun name => ?_, fun r' hmem => ?_, ?_⟩
  · rw [List.map_append, List.nodup_append]
    refine ⟨hr.distinct.sublist (List.filter_sublist.map _), List.nodup_singleton _, ?_⟩
    intro name hname name' hname'
    obtain ⟨r', hr', rfl⟩ := List.mem_map.1 hname
    rw [List.mem_singleton.1 hname']
    exact (mem_deleteIn.1 hr').2
  · have hmem : name ∈ (deleteIn records r.name ++ [r]).map (·.name) ↔
        (name ∈ records.map (·.name) ∧ name ≠ r.name) ∨ name = r.name := by
      rw [List.map_append, List.mem_append, map_name_deleteIn, List.mem_filter]
      simp
    -- Of the names only that of the new record can have become alive.
    rw [hmem, hr.alive, alive_concat_iff]
    by_cases hname : name = r.name
    · subst hname
      exact iff_of_true (.inr rfl)
        (htouch.imp id fun hreset => ⟨hreset.2, htouch.ne_delete _⟩)
    · constructor
      · rintro (⟨ha, -⟩ | heq)
        · exact .inr ⟨ha, htouch.ne_delete _⟩
        · exact absurd heq hname
      · rintro (hset | ⟨ha, -⟩)
        · exact absurd (.inl hset) (hother name hname)
        · exact .inl ⟨ha, hname⟩
  · rcases List.mem_append.1 hmem with hmem | hmem
    · exact hrecords r' hmem
    · rwa [List.mem_singleton.1 hmem]
  · -- What the call touches is touched after all others.
    refine List.pairwise_append.2 ⟨horder, List.pairwise_singleton _ _, fun r' hr' r'' hr'' => ?_⟩
    rw [List.mem_singleton.1 hr'']
    obtain ⟨hmem, hname⟩ := mem_deleteIn.1 hr'
    obtain ⟨-, i, hi, -⟩ := hr.recalls r' hmem
    exact ⟨i, h.length, hi.concat (hother _ hname), lastTouched_length htouch, hi.lt_length⟩

/-- Deleting a variable drops its record. -/
theorem deleted (hr : Remembers h records) (name : String) :
    Remembers (h ++ [.delete name]) (deleteIn records name) := by
  have hquiet (other : String) : ¬Touches h other (.delete name) := by simp [Touches]
  obtain ⟨hrecords, horder⟩ := hr.others (c := .delete name) fun other hother =>
    ⟨hquiet other, by simpa using hother.symm⟩
  refine ⟨hr.distinct.sublist (List.filter_sublist.map _), fun other => ?_, hrecords, horder⟩
  rw [map_name_deleteIn, List.mem_filter, hr.alive, alive_concat_iff]
  simp only [bne_iff_ne, ne_eq, reduceCtorEq, exists_false, false_or, Call.delete.injEq]
  exact and_congr_right fun _ => not_congr eq_comm

/-- **One call.**  The record list after a call says what the history with the call says. -/
theorem next (hr : Remembers h records) (c : Call) : Remembers (h ++ [c]) (c.next records) := by
  -- Setting and resetting put the record of the variable at the end; reading leaves all as it is.
  cases c with
  | set name value =>
    rw [Call.next, setIn]
    split
    · rename_i old hold
      obtain ⟨hmem, rfl⟩ := (find?_eq_some_iff hr.distinct).1 hold
      rw [dropFirst_eq_deleteIn hr.distinct]
      have htouch : Touches h old.name (.set old.name value) := .inl ⟨value, rfl⟩
      obtain ⟨⟨i, hmade⟩, -⟩ := hr.recalls old hmem
      have hrecalls : Recalls (h ++ [.set old.name value]) { old with value := value } :=
        ⟨⟨i, hmade.concat (by simp)⟩, h.length, lastTouched_length htouch, .inl (by simp)⟩
      exact hr.touched { old with value := value } htouch hrecalls
    · rename_i hnone
      have hdead := hr.find?_eq_none_iff.1 hnone
      have htouch : Touches h name (.set name value) := .inl ⟨value, rfl⟩
      have hrecalls : Recalls (h ++ [.set name value]) ⟨name, value, value⟩ :=
        ⟨⟨h.length, madeAt_length hdead⟩, h.length, lastTouched_length htouch, .inl (by simp)⟩
      rw [← deleteIn_eq_self (mt (hr.alive name).1 hdead)]
      exact hr.touched ⟨name, value, value⟩ htouch hrecalls
  | reset name =>
    rw [Call.next, resetIn?]
    cases hfind : records.find? (·.name == name) with
    | none =>
      have hdead := hr.find?_eq_none_iff.1 hfind
      refine hr.of_quiet (fun other ht => ?_) (by simp)
      rcases ht with ⟨value, hc⟩ | ⟨hc, ha⟩
      · exact absurd hc (by simp)
      · exact hdead (Call.reset.inj hc ▸ ha)
    | some old =>
      obtain ⟨hmem, rfl⟩ := (find?_eq_some_iff hr.distinct).1 hfind
      have htouch : Touches h old.name (.reset old.name) :=
        .inr ⟨rfl, (hr.alive _).1 (List.mem_map_of_mem hmem)⟩
      obtain ⟨⟨i, hmade⟩, -⟩ := hr.recalls old hmem
      have hrecalls : Recalls (h ++ [.reset old.name]) { old with value := old.initial } :=
        ⟨⟨i, hmade.concat (by simp)⟩, h.length, lastTouched_length htouch, .inr ⟨by simp, rfl⟩⟩
      simp only [Option.map_some, Option.getD_some]
      rw [dropFirst_eq_deleteIn hr.distinct]
      exact hr.touched { old with value := old.initial } htouch hrecalls
  | delete name => exact hr.deleted name
  | get name => exact hr.of_quiet (by simp [Touches]) (by simp)
  | list => exact hr.of_quiet (by simp [Touches]) (by simp)
  | increment id => exact hr.of_quiet (by simp [Touches]) (by simp)
  | decrement id => exact hr.of_quiet (by simp [Touches]) (by simp)
  | counter id => exact hr.of_quiet (by simp [Touches]) (by simp)

end Remembers

end Stencil.Store
