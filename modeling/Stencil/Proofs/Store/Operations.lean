import Stencil.Proofs.Store.Backends

/-!
# Operations of the Store

On a backend that keeps items every operation behaves as on items in memory.  There, as long as the
record list can be read, no operation fails, and each changes either the record list or one counter.

Main statements: `decodeRecords_encodeRecords`, the `…_memory` lemmas for the single operations, and
their `Simulates` counterparts for other backends.
-/

namespace Stencil.Store

variable {σ : Type}

/-! ## §1 Record lists -/

theorem decodeRecords_encodeRecords (records : List Record) :
    decodeRecords (encodeRecords records) = .ok records := by
  have htexts : records.map Record.toJson = (records.map fun r =>
      [("name", r.name), ("value", r.value), ("initialValue", r.initial)]).map Json.ofTexts := by
    rw [List.map_map]
    rfl
  have hparse : Json.parseFields? Record.keys.contains (encodeRecords records) =
      some (.list (records.map Record.toJson)) := by
    rw [encodeRecords, htexts]
    refine Json.parse_records fun fields hmem => ?_
    obtain ⟨r, -, rfl⟩ := List.mem_map.1 hmem
    exact ⟨by simp, by simp [Record.keys]⟩
  -- The value that is read is the one that was written, and each record is read off its own.
  have hrecords : (records.map Record.toJson).mapM Record.ofJson? = some records := by
    clear htexts hparse
    induction records with
    | nil => rfl
    | cons r records ih =>
      have hrecord : Record.ofJson? r.toJson = some r := by
        simp [Record.ofJson?, Record.toJson, Record.soleText?]
      rw [List.map_cons, List.mapM_cons, hrecord, ih]
      rfl
  simp only [decodeRecords, hparse, hrecords]

/-- The record list of items. -/
def recordsIn (d : Items) : Except Failure (List Record) :=
  match d.get? variablesKey with
  | some raw => decodeRecords raw
  | none => .ok []

/-- Items with another record list. -/
def withRecords (d : Items) (records : List Record) : Items :=
  d.insert variablesKey (encodeRecords records)

/-- The record list is read back from the items it was put into. -/
@[simp] theorem recordsIn_withRecords (d : Items) (records : List Record) :
    recordsIn (withRecords d records) = .ok records := by
  rw [recordsIn, withRecords, Dict.get?_insert, if_pos rfl]
  exact decodeRecords_encodeRecords records

theorem counterKey_ne (id : String) : counterKey id ≠ variablesKey := by
  intro h
  have hlist := congrArg String.toList h
  rw [counterKey, String.toList_append] at hlist
  exact absurd (List.cons.inj hlist).1 (by decide)

/-- Changing a counter leaves the record list. -/
@[simp] theorem recordsIn_insert_counter (d : Items) (id value : String) :
    recordsIn (d.insert (counterKey id) value) = recordsIn d := by
  rw [recordsIn, recordsIn, Dict.get?_insert, if_neg (counterKey_ne id).symm]

/-! ## §2 On items in memory -/

theorem getItem_memory (key : String) (d : Items) :
    Backend.memory.getItem key d = .ok (d.get? key) d := rfl

section Memory

variable {d : Items} {records : List Record} (h : recordsIn d = .ok records)
include h

theorem load_memory : load Backend.memory d = .ok records d := by
  simp only [load, bind, EStateM.bind, getItem_memory]
  unfold recordsIn at h
  cases hget : d.get? variablesKey with
  | none =>
    rw [hget] at h
    cases h
    rfl
  | some raw =>
    rw [hget] at h
    simp only at h
    simp only [h]
    rfl

theorem get_memory (name : String) : get Backend.memory name d = .ok (valueIn records name) d := by
  simp only [get, bind, EStateM.bind, load_memory h]
  rfl

theorem set_memory (name value : String) :
    set Backend.memory name value d = .ok () (withRecords d (setIn records name value)) := by
  simp only [set, bind, EStateM.bind, load_memory h]
  rfl

theorem reset_memory (name : String) :
    reset Backend.memory name d =
      match resetIn? records name with
      | some (value, records) => .ok value (withRecords d records)
      | none => .ok "" d := by
  simp only [reset, bind, EStateM.bind, load_memory h]
  cases resetIn? records name with
  | some found => rfl
  | none => rfl

theorem delete_memory (name : String) :
    delete Backend.memory name d = .ok ()
      (if (deleteIn records name).length ≠ records.length then
        withRecords d (deleteIn records name) else d) := by
  simp only [delete, bind, EStateM.bind, load_memory h]
  split <;> rfl

theorem list_memory : list Backend.memory d = .ok records d := load_memory h

end Memory

theorem counter_memory (id : String) (d : Items) :
    counter Backend.memory id d = .ok (counterValue ((d.get? (counterKey id)).getD "0")) d := rfl

theorem step_memory (id : String) (delta : Int) (d : Items) :
    step Backend.memory id delta d =
      let next := toString (Text.clampInt64
        (counterValue ((d.get? (counterKey id)).getD "0") + delta))
      .ok next (d.insert (counterKey id) next) := rfl

/-! ## §3 On any backend that keeps items -/

namespace Backend.Keeps

variable {b : Backend σ} {items? : σ → Option Items} (h : b.Keeps items?)
include h

theorem load : Simulates items? (Store.load b) (Store.load memory) := by
  refine (h.getItem variablesKey).bind fun item => ?_
  cases item with
  | none => exact .pure items? []
  | some raw =>
    dsimp only
    cases decodeRecords raw with
    | ok records => exact .pure items? records
    | error e => exact .throw items? e

theorem save (records : List Record) :
    Simulates items? (Store.save b records) (Store.save memory records) :=
  h.setItem variablesKey (encodeRecords records)

theorem get (name : String) : Simulates items? (Store.get b name) (Store.get memory name) :=
  h.load.bind fun records => .pure items? (valueIn records name)

theorem set (name value : String) :
    Simulates items? (Store.set b name value) (Store.set memory name value) :=
  h.load.bind fun records => h.save (setIn records name value)

theorem reset (name : String) : Simulates items? (Store.reset b name) (Store.reset memory name) := by
  refine h.load.bind fun records => ?_
  cases resetIn? records name with
  | none => exact .pure items? ""
  | some found => exact (h.save found.2).bind fun _ => .pure items? found.1

theorem delete (name : String) :
    Simulates items? (Store.delete b name) (Store.delete memory name) := by
  refine h.load.bind fun records => ?_
  dsimp only
  split
  · exact h.save (deleteIn records name)
  · exact .pure items? ()

theorem counter (id : String) :
    Simulates items? (Store.counter b id) (Store.counter memory id) :=
  (h.getItem (counterKey id)).bind fun item => .pure items? (counterValue (item.getD "0"))

theorem step (id : String) (delta : Int) :
    Simulates items? (Store.step b id delta) (Store.step memory id delta) :=
  (h.counter id).bind fun value =>
    (h.setItem (counterKey id) (toString (Text.clampInt64 (value + delta)))).bind fun _ =>
      .pure items? (toString (Text.clampInt64 (value + delta)))

theorem set_ok {s : σ} {d : Items} (hs : items? s = some d) {records : List Record}
    (hrecords : recordsIn d = .ok records) (name value : String) :
    ∃ s', Store.set b name value s = .ok () s' ∧
      items? s' = some (withRecords d (setIn records name value)) := by
  have hset := h.set name value s d hs
  rwa [set_memory hrecords] at hset

theorem get_ok {s : σ} {d : Items} (hs : items? s = some d) {records : List Record}
    (hrecords : recordsIn d = .ok records) (name : String) :
    ∃ s', Store.get b name s = .ok (valueIn records name) s' ∧ items? s' = some d := by
  have hget := h.get name s d hs
  rwa [get_memory hrecords] at hget

end Backend.Keeps

/-! ## §4 Setting and getting -/

/-- What is read after a variable is set: what it was set to, or the value of a second record of its
name, since only the first one is changed. -/
theorem valueIn_setIn (records : List Record) (name value : String) :
    valueIn (setIn records name value) name =
      (((dropFirst records name).find? (·.name == name)).map (·.value)).getD value := by
  unfold setIn valueIn
  split
  · rename_i old hold
    have hname : old.name = name := by simpa using List.find?_some hold
    rw [List.find?_append]
    cases (dropFirst records name).find? (·.name == name) <;> simp [hname]
  · rename_i hnone
    have hall : dropFirst records name = records :=
      List.eraseP_of_forall_not (by simpa using hnone)
    rw [hall, List.find?_append, hnone]
    simp

end Stencil.Store
