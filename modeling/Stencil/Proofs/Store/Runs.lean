import Mathlib.Data.List.Induction
import Stencil.Proofs.Store.History

/-!
# Runs of Calls on a Store

Every run of calls on a store that starts empty succeeds, on any backend that keeps items.  The record
list under its key is afterwards what the history says of the variables, each answer is what the calls
before it say, and calls about variables and calls about counters leave each other's keys.

Main statements: `Call.perform_memory` (one call on items in memory) and `run_determined` (a run).
-/

namespace Stencil.Store

variable {σ : Type}

/-! ## §1 Answers and items -/

/-- What stands under the key of the record list after a history: nothing until a variable is set. -/
def storedRecords (h : List Call) (records : List Record) : Option String :=
  if h.any Call.isSet then some (encodeRecords records) else none

/-- An answer to a call is what a history and the records it leads to say. -/
def Answers (h : List Call) (records : List Record) : Call → Answer → Prop
  | .set _ _, a | .delete _, a => a = .done
  | .get name, a => (∃ r ∈ records, r.name = name ∧ a = .text r.value) ∨
      (¬Alive h name ∧ a = .text "")
  | .reset name, a => (∃ r ∈ records, r.name = name ∧ a = .text r.initial) ∨
      (¬Alive h name ∧ a = .text "")
  | .list, a => a = .records records
  | .increment _, a | .decrement _, a => ∃ n : Int, a = .text (toString n)
  | .counter _, a => ∃ n : Int, a = .number n

/-- A call keeps to its own keys: calls about variables change no counter, calls about counters do not
change the record list, and resetting a variable that is not alive changes nothing. -/
structure KeepsApart (h : List Call) (c : Call) (d d' : Items) : Prop where
  /-- Calls about variables change no counter. -/
  onCounters : c.isVariable = true → ∀ id, d'.get? (counterKey id) = d.get? (counterKey id)
  /-- Calls about counters do not change the record list. -/
  onVariables : c.isVariable = false → d'.get? variablesKey = d.get? variablesKey
  /-- Resetting a variable that is not alive changes nothing. -/
  onAbsent : ∀ name, c = .reset name → ¬Alive h name → d' = d

@[simp] theorem get?_withRecords (d : Items) (records : List Record) :
    (withRecords d records).get? variablesKey = some (encodeRecords records) := by
  rw [withRecords, Dict.get?_insert, if_pos rfl]

@[simp] theorem get?_withRecords_counter (d : Items) (records : List Record) (id : String) :
    (withRecords d records).get? (counterKey id) = d.get? (counterKey id) := by
  rw [withRecords, Dict.get?_insert, if_neg (counterKey_ne id)]

theorem storedRecords_concat {h : List Call} {c : Call} (hc : c.isSet = false)
    (records : List Record) : storedRecords (h ++ [c]) records = storedRecords h records := by
  simp [storedRecords, hc]

theorem any_isSet_of_alive {h : List Call} {name : String} (ha : Alive h name) :
    h.any Call.isSet = true := by
  obtain ⟨i, value, hi, -⟩ := ha
  exact List.any_eq_true.2 ⟨_, List.mem_of_getElem? hi, rfl⟩

theorem storedRecords_of_mem {h : List Call} {records : List Record} (hr : Remembers h records)
    {r : Record} (hmem : r ∈ records) (c : Call) (records' : List Record) :
    storedRecords (h ++ [c]) records' = some (encodeRecords records') := by
  have ha := (hr.alive r.name).1 (List.mem_map_of_mem hmem)
  rw [storedRecords, List.any_append, any_isSet_of_alive ha]
  rfl

theorem KeepsApart.refl (h : List Call) (c : Call) (d : Items) : KeepsApart h c d d :=
  ⟨fun _ _ => rfl, fun _ => rfl, fun _ _ _ => rfl⟩

theorem KeepsApart.withRecords {h : List Call} {c : Call} (hc : c.isVariable = true)
    (habsent : ∀ name, c = .reset name → Alive h name) (d : Items) (records : List Record) :
    KeepsApart h c d (withRecords d records) :=
  ⟨fun _ => get?_withRecords_counter d records, fun hc' => absurd (hc.symm.trans hc') (by simp),
    fun name hreset hdead => absurd (habsent name hreset) hdead⟩

theorem KeepsApart.insert {h : List Call} {c : Call} (hc : c.isVariable = false) (d : Items)
    (id value : String) : KeepsApart h c d (d.insert (counterKey id) value) := by
  refine ⟨fun hc' => absurd (hc.symm.trans hc') (by simp), fun _ => ?_, ?_⟩
  · rw [Dict.get?_insert, if_neg (counterKey_ne id).symm]
  · rintro name rfl -
    exact absurd hc (by simp [Call.isVariable])

section Memory

variable {h : List Call} {records : List Record} {d : Items} (hr : Remembers h records)
  (hd : d.get? variablesKey = storedRecords h records)
include hr hd

theorem recordsIn_of_stored : recordsIn d = .ok records := by
  rw [recordsIn, hd, storedRecords]
  split
  · rename_i raw hraw
    split at hraw
    · obtain rfl := Option.some.inj hraw
      exact decodeRecords_encodeRecords records
    · exact absurd hraw (by simp)
  · rename_i hnone
    split at hnone
    · exact absurd hnone (by simp)
    · rename_i hset
      -- No variable was set, so none is alive and there is no record.
      cases records with
      | nil => rfl
      | cons r records =>
        have ha := (hr.alive r.name).1 (by simp)
        exact absurd (any_isSet_of_alive ha) hset

/-- A variable is reset to its initial value if it has a record, and nothing changes if not. -/
theorem perform_memory_reset (name : String) :
    ∃ a d', (Call.reset name).perform Backend.memory d = .ok a d' ∧
      d'.get? variablesKey = storedRecords (h ++ [.reset name]) ((Call.reset name).next records) ∧
      Answers h records (.reset name) a ∧ KeepsApart h (.reset name) d d' := by
  have hreset := reset_memory (recordsIn_of_stored hr hd) name
  cases hfind : records.find? (·.name == name) with
  | none =>
    have hnone : resetIn? records name = none := by rw [resetIn?, hfind]; rfl
    rw [hnone] at hreset
    refine ⟨.text "", d, ?_, ?_, .inr ⟨hr.find?_eq_none_iff.1 hfind, rfl⟩, .refl h _ d⟩
    · rw [Call.perform, bind_of_ok hreset]
      rfl
    · rw [hd, storedRecords_concat rfl, Call.next, hnone]
      rfl
  | some r =>
    obtain ⟨hmem, rfl⟩ := (find?_eq_some_iff hr.distinct).1 hfind
    -- The record has its initial value back and is the last one.
    obtain ⟨records', hsome⟩ : ∃ records', resetIn? records r.name = some (r.initial, records') :=
      ⟨_, by rw [resetIn?, hfind]; rfl⟩
    rw [hsome] at hreset
    refine ⟨.text r.initial, withRecords d records', ?_, ?_, .inl ⟨r, hmem, rfl, rfl⟩,
      .withRecords rfl ?_ d records'⟩
    · rw [Call.perform, bind_of_ok hreset]
      rfl
    · rw [storedRecords_of_mem hr hmem, get?_withRecords, Call.next, hsome]
      rfl
    · rintro name ⟨⟩
      exact (hr.alive _).1 (List.mem_map_of_mem hmem)

/-- A variable is deleted: the record list is put back only if it is shorter. -/
theorem perform_memory_delete (name : String) :
    ∃ a d', (Call.delete name).perform Backend.memory d = .ok a d' ∧
      d'.get? variablesKey = storedRecords (h ++ [.delete name]) ((Call.delete name).next records) ∧
      Answers h records (.delete name) a ∧ KeepsApart h (.delete name) d d' := by
  have hdelete := delete_memory (recordsIn_of_stored hr hd) name
  split at hdelete
  · rename_i hlength
    refine ⟨.done, withRecords d (deleteIn records name), ?_, ?_, rfl,
      .withRecords rfl (by simp) d _⟩
    · rw [Call.perform, bind_of_ok hdelete]
      rfl
    · -- A record went, so there was one.
      obtain ⟨r, hmem⟩ : ∃ r, r ∈ records := by
        cases records with
        | nil => exact absurd rfl hlength
        | cons r records => exact ⟨r, List.mem_cons_self⟩
      rw [storedRecords_of_mem hr hmem]
      exact get?_withRecords _ _
  · -- The list is as long as it was, so none of the name was in it.
    rename_i hlength
    have hsame : deleteIn records name = records :=
      List.filter_sublist.eq_of_length (not_not.1 hlength)
    refine ⟨.done, d, ?_, ?_, rfl, .refl h _ d⟩
    · rw [Call.perform, bind_of_ok hdelete]
      rfl
    · rw [hd, storedRecords_concat rfl, Call.next, hsame]

/-- **One call on items in memory.**  It succeeds, leaves the record list that the history says, and
keeps to its own keys. -/
theorem Call.perform_memory (c : Call) :
    ∃ a d', c.perform Backend.memory d = .ok a d' ∧
      d'.get? variablesKey = storedRecords (h ++ [c]) (c.next records) ∧
      Answers h records c a ∧ KeepsApart h c d d' := by
  have hrecords := recordsIn_of_stored hr hd
  cases c with
  -- A variable that is set has a record, so the list is stored from here on.
  | set name value =>
    refine ⟨.done, withRecords d (setIn records name value), ?_, ?_, rfl,
      .withRecords rfl (by simp) _ _⟩
    · rw [Call.perform, bind_of_ok (set_memory hrecords name value)]
      rfl
    · simp [storedRecords, Call.isSet, Call.next]
  | get name =>
    refine ⟨.text (valueIn records name), d, ?_, ?_, ?_, .refl h _ d⟩
    · rw [Call.perform, bind_of_ok (get_memory hrecords name)]
      rfl
    · rw [hd, storedRecords_concat rfl]
      rfl
    · rw [valueIn]
      cases hfind : records.find? (·.name == name) with
      | none => exact .inr ⟨hr.find?_eq_none_iff.1 hfind, rfl⟩
      | some r =>
        obtain ⟨hmem, hname⟩ := (find?_eq_some_iff hr.distinct).1 hfind
        exact .inl ⟨r, hmem, hname, rfl⟩
  | reset name => exact perform_memory_reset hr hd name
  | delete name => exact perform_memory_delete hr hd name
  | list =>
    refine ⟨.records records, d, ?_, ?_, rfl, .refl h _ d⟩
    · rw [Call.perform, bind_of_ok (list_memory hrecords)]
      rfl
    · rw [hd, storedRecords_concat rfl]
      rfl
  -- The keys of counters are none of the record list, which stays as it is.
  | increment id =>
    refine ⟨_, _, rfl, ?_, ⟨_, rfl⟩, .insert rfl d id _⟩
    rw [Dict.get?_insert, if_neg (counterKey_ne id).symm, hd, storedRecords_concat rfl]
    rfl
  | decrement id =>
    refine ⟨_, _, rfl, ?_, ⟨_, rfl⟩, .insert rfl d id _⟩
    rw [Dict.get?_insert, if_neg (counterKey_ne id).symm, hd, storedRecords_concat rfl]
    rfl
  | counter id =>
    refine ⟨_, d, rfl, ?_, ⟨_, rfl⟩, .refl h _ d⟩
    rw [hd, storedRecords_concat rfl]
    rfl

end Memory

/-! ## §3 On any backend that keeps items -/

theorem Call.perform_simulates {b : Backend σ} {items? : σ → Option Items} (hb : b.Keeps items?)
    (c : Call) : Simulates items? (c.perform b) (c.perform Backend.memory) := by
  cases c with
  | set name value => exact (hb.set name value).bind fun _ => .pure items? _
  | get name => exact (hb.get name).bind fun _ => .pure items? _
  | reset name => exact (hb.reset name).bind fun _ => .pure items? _
  | delete name => exact (hb.delete name).bind fun _ => .pure items? _
  | list => exact hb.load.bind fun _ => .pure items? _
  | increment id => exact (hb.step id 1).bind fun _ => .pure items? _
  | decrement id => exact (hb.step id (-1)).bind fun _ => .pure items? _
  | counter id => exact (hb.counter id).bind fun _ => .pure items? _

section Backend

variable {b : Backend σ} {items? : σ → Option Items} (hb : b.Keeps items?) {s : σ}
include hb

/-- One call on a backend that keeps items. -/
theorem Call.perform_ok {h : List Call} {records : List Record} {d : Items}
    (hr : Remembers h records) (hd : d.get? variablesKey = storedRecords h records)
    (hs : items? s = some d) (c : Call) :
    ∃ a s' d', c.perform b s = .ok a s' ∧ items? s' = some d' ∧
      d'.get? variablesKey = storedRecords (h ++ [c]) (c.next records) ∧
      Answers h records c a ∧ KeepsApart h c d d' := by
  obtain ⟨a, d', hperform, hd', hanswer, hapart⟩ := Call.perform_memory hr hd c
  obtain ⟨s', hs', hitems⟩ := c.perform_simulates hb s d hs
  rw [hperform] at hs' hitems
  exact ⟨a, s', d', hs', hitems, hd', hanswer, hapart⟩

/-- A run of calls on a store that starts empty. -/
theorem exists_run (hs : items? s = some .empty) (h : List Call) :
    ∃ answers s' d records, h.mapM (Call.perform b) s = .ok answers s' ∧ items? s' = some d ∧
      Remembers h records ∧ d.get? variablesKey = storedRecords h records ∧
      answers.length = h.length ∧ ∀ i c, h[i]? = some c → ∃ a before, answers[i]? = some a ∧
        Remembers (h.take i) before ∧ Answers (h.take i) before c a := by
  -- The last call of a run finds what the calls before it have left.
  induction h using List.reverseRecOn with
  | nil => exact ⟨[], s, .empty, [], rfl, hs, .nil, Dict.get?_empty _, rfl, by simp⟩
  | append_singleton h c ih =>
    obtain ⟨answers, s', d, records, hrun, hs', hr, hd, hlength, hanswers⟩ := ih
    obtain ⟨a, s'', d', hperform, hs'', hd', hanswer, -⟩ := Call.perform_ok hb hr hd hs' c
    have hlast : [c].mapM (Call.perform b) s' = .ok [a] s'' :=
      mapM_cons_eq_ok.2 ⟨a, s'', [], hperform, rfl, rfl⟩
    refine ⟨answers ++ [a], s'', d', c.next records,
      mapM_append_eq_ok.2 ⟨_, _, _, hrun, hlast, rfl⟩, hs'', hr.next c, hd', by simp [hlength], ?_⟩
    intro i c' hi
    rcases getElem?_concat_eq_some_iff.1 hi with hi | ⟨rfl, rfl⟩
    · have hlt := lt_length_of_getElem? hi
      rw [List.take_append_of_le_length (Nat.le_of_lt hlt), List.getElem?_append_left (hlength ▸ hlt)]
      exact hanswers i c' hi
    · rw [List.take_left]
      exact ⟨a, records, by rw [← hlength]; simp, hr, hanswer⟩

/-- **The store is determined by its history.**  On a backend that keeps items and starts empty every
run of calls succeeds.  There is one list of records that says what the history says; it is encoded
under its key, from where it is read back, and it gives every answer.  Any next call succeeds, answers
as the history says, and keeps to its own keys. -/
theorem run_determined (hs : items? s = some .empty) (h : List Call) :
    ∃ answers s' d records, h.mapM (Call.perform b) s = .ok answers s' ∧ items? s' = some d ∧
      (∀ records', Remembers h records' ↔ records' = records) ∧
      d.get? variablesKey = storedRecords h records ∧
      decodeRecords (encodeRecords records) = .ok records ∧
      (∀ i c, h[i]? = some c → ∃ a before, answers[i]? = some a ∧
        Remembers (h.take i) before ∧ Answers (h.take i) before c a) ∧
      ∀ c, ∃ a s'' d', c.perform b s' = .ok a s'' ∧ items? s'' = some d' ∧
        Answers h records c a ∧ KeepsApart h c d d' := by
  obtain ⟨answers, s', d, records, hrun, hs', hr, hd, -, hanswers⟩ := exists_run hb hs h
  refine ⟨answers, s', d, records, hrun, hs', fun records' => ⟨fun hr' => hr'.unique hr, ?_⟩, hd,
    decodeRecords_encodeRecords records, hanswers, fun c => ?_⟩
  · rintro rfl
    exact hr
  · obtain ⟨a, s'', d', hperform, hs'', -, hanswer, hapart⟩ := Call.perform_ok hb hr hd hs' c
    exact ⟨a, s'', d', hperform, hs'', hanswer, hapart⟩

end Backend

/-- A variable and a counter of one name, and a reset that moves the variable behind another. -/
theorem run_determined_reset :
    ∃ answers s', [Call.set "n" "1", .increment "n", .set "n" "2", .set "m" "3", .reset "n"].mapM
        (Call.perform Backend.memory) Dict.empty = .ok answers s' ∧
      s'.get? variablesKey = some (encodeRecords [⟨"m", "3", "3"⟩, ⟨"n", "1", "1"⟩]) := by
  obtain ⟨answers, s', d, records, hrun, hs', hunique, hd, -⟩ :=
    run_determined Backend.memory_keeps rfl
      [Call.set "n" "1", .increment "n", .set "n" "2", .set "m" "3", .reset "n"]
  have hrecords : Remembers
      [Call.set "n" "1", .increment "n", .set "n" "2", .set "m" "3", .reset "n"]
      [⟨"m", "3", "3"⟩, ⟨"n", "1", "1"⟩] :=
    ((((Remembers.nil.next (.set "n" "1")).next (.increment "n")).next (.set "n" "2")).next
      (.set "m" "3")).next (.reset "n")
  obtain rfl := (hunique _).1 hrecords
  obtain rfl : s' = d := Option.some.inj hs'
  exact ⟨answers, s', hrun, hd⟩

end Stencil.Store
