import Stencil.Proofs.Store.Handles
import Stencil.Proofs.Store.Runs

/-!
# Failures of the Store

An operation of the store, or of the backend under it, that fails leaves the bytes of the store file:
each writes last, after all that can fail.  Which operations fail is said by the two layers of what is
stored.  Where the bytes cannot be read as items, all do.  Where the text of the record list cannot be
read as records, those about variables do, and those about counters succeed and touch one key.

Main statements: `Backend.Careful.perform`, `Backend.Broken.perform` and `failures_contained`.
-/

namespace Stencil.Store

open Files

variable {ε α β γ σ : Type}

/-! ## §1 Actions that fail -/

/-- Whether an action leaves what is seen of the state, however it ends. -/
def Leaves (view : σ → γ) (act : Action ε σ α) : Prop := ∀ s, view (stateOf (act s)) = view s

/-- Whether an action leaves what is seen of the state if it fails. -/
def LeavesOnFailure (view : σ → γ) (act : Action ε σ α) : Prop :=
  ∀ s e s', act s = .error e s' → view s' = view s

/-- Whether an action fails on a state. -/
def FailsOn (act : Action ε σ α) (s : σ) : Prop := ∃ e s', act s = .error e s'

section Actions

variable {view : σ → γ} {act : Action ε σ α} {f : α → Action ε σ β} {s s' : σ} {e : ε}

/-- One action after another fails only if one of them does. -/
theorem error_of_bind (h : (act >>= f) s = .error e s') :
    act s = .error e s' ∨ ∃ a s₁, act s = .ok a s₁ ∧ f a s₁ = .error e s' := by
  change EStateM.bind act f s = .error e s' at h
  unfold EStateM.bind at h
  split at h
  · rename_i a s₁ hact
    exact .inr ⟨a, s₁, hact, h⟩
  · rename_i e₁ s₁ hact
    cases h
    exact .inl hact

theorem FailsOn.bind (h : FailsOn act s) (f : α → Action ε σ β) : FailsOn (act >>= f) s := by
  obtain ⟨e, s', hs⟩ := h
  refine ⟨e, s', ?_⟩
  change EStateM.bind act f s = _
  simp only [EStateM.bind, hs]

theorem Leaves.pure (a : α) : Leaves (ε := ε) view (pure a) := fun _ => rfl

theorem Leaves.throw (e : ε) : Leaves view (throw e : Action ε σ α) := fun _ => rfl

theorem Leaves.onFailure (h : Leaves view act) : LeavesOnFailure view act := by
  intro s e s' herror
  simpa [herror, stateOf] using h s

/-- What both parts leave, one after the other leave. -/
theorem Leaves.bind (h : Leaves view act) (hf : ∀ a, Leaves view (f a)) :
    Leaves view (act >>= f) := by
  intro s
  have hact := h s
  change view (stateOf (EStateM.bind act f s)) = view s
  unfold EStateM.bind
  cases hs : act s with
  | ok a s₁ =>
    rw [hs] at hact
    exact (hf a s₁).trans hact
  | error e s₁ => rwa [hs] at hact

/-- A part that may change something comes last, so that nothing fails after it. -/
theorem LeavesOnFailure.bind (h : Leaves view act) (hf : ∀ a, LeavesOnFailure view (f a)) :
    LeavesOnFailure view (act >>= f) := by
  intro s e s' herror
  rcases error_of_bind herror with hact | ⟨a, s₁, hact, hf'⟩
  · exact h.onFailure s e s' hact
  · have hleft := h s
    rw [hact] at hleft
    exact (hf a s₁ e s' hf').trans hleft

theorem LeavesOnFailure.bind_pure (h : LeavesOnFailure view act) (g : α → β) :
    LeavesOnFailure view (act >>= fun a => pure (g a)) := by
  intro s e s' herror
  rcases error_of_bind herror with hact | ⟨a, s₁, -, hpure⟩
  · exact h s e s' hact
  · cases hpure

end Actions

/-! ## §2 Operations -/

/-- An operation of a store, or of the backend under it. -/
inductive Operation where
  /-- A call of the store. -/
  | store (c : Call)
  /-- A call of the backend. -/
  | backend (c : ItemCall)

/-- What an operation gives. -/
abbrev OperationAnswer := Answer ⊕ ItemAnswer

/-- Makes an operation. -/
def Operation.perform (b : Backend σ) : Operation → Action Failure σ OperationAnswer
  | store c => do return .inl (← c.perform b)
  | backend c => do return .inr (← c.perform b)

/-- Whether a backend changes what is seen of its state only by a write that succeeds. -/
structure Backend.Careful (b : Backend σ) (view : σ → γ) : Prop where
  /-- Looking up a key changes nothing. -/
  getItem (key : String) : Leaves view (b.getItem key)
  /-- Putting a string under a key changes nothing if it fails. -/
  setItem (key value : String) : LeavesOnFailure view (b.setItem key value)
  /-- Dropping a key changes nothing if it fails. -/
  removeItem (key : String) : LeavesOnFailure view (b.removeItem key)
  /-- Listing the keys changes nothing. -/
  keys : Leaves view b.keys

namespace Backend.Careful

variable {b : Backend σ} {view : σ → γ} (h : b.Careful view)
include h

theorem load : Leaves view (Store.load b) := by
  refine (h.getItem variablesKey).bind fun item => ?_
  cases item with
  | none => exact .pure []
  | some raw =>
    dsimp only
    cases decodeRecords raw with
    | ok records => exact .pure records
    | error e => exact .throw e

theorem save (records : List Record) : LeavesOnFailure view (Store.save b records) :=
  h.setItem variablesKey (encodeRecords records)

theorem reset (name : String) : LeavesOnFailure view (Store.reset b name) := by
  refine .bind h.load fun records => ?_
  cases resetIn? records name with
  | none => exact (Leaves.pure "").onFailure
  | some found => exact (h.save found.2).bind_pure fun _ => found.1

theorem delete (name : String) : LeavesOnFailure view (Store.delete b name) := by
  refine .bind h.load fun records => ?_
  dsimp only
  split
  · exact h.save (deleteIn records name)
  · exact (Leaves.pure ()).onFailure

theorem counter (id : String) : Leaves view (Store.counter b id) :=
  (h.getItem (counterKey id)).bind fun item => .pure (counterValue (item.getD "0"))

theorem step (id : String) (delta : Int) : LeavesOnFailure view (Store.step b id delta) :=
  .bind (h.counter id) fun _ => (h.setItem (counterKey id) _).bind_pure fun _ => _

/-- An operation that fails changes nothing: every write is the last thing that is done. -/
theorem perform (op : Operation) : LeavesOnFailure view (op.perform b) := by
  cases op with
  | store c =>
    refine LeavesOnFailure.bind_pure ?_ Sum.inl
    -- A call that writes has its write last; what comes after it only hands on an answer.
    cases c with
    | set name value =>
      exact (LeavesOnFailure.bind h.load fun records => h.save (setIn records name value)).bind_pure _
    | get name =>
      exact ((h.load.bind fun records => .pure (valueIn records name)).bind fun _ => .pure _).onFailure
    | reset name => exact (h.reset name).bind_pure _
    | delete name => exact (h.delete name).bind_pure _
    | list => exact (h.load.bind fun _ => .pure _).onFailure
    | increment id => exact (h.step id 1).bind_pure _
    | decrement id => exact (h.step id (-1)).bind_pure _
    | counter id => exact ((h.counter id).bind fun _ => .pure _).onFailure
  | backend c =>
    refine LeavesOnFailure.bind_pure ?_ Sum.inr
    cases c with
    | get key => exact ((h.getItem key).bind fun _ => .pure _).onFailure
    | set key value => exact (h.setItem key value).bind_pure _
    | remove key => exact (h.removeItem key).bind_pure _
    | keys => exact (h.keys.bind fun _ => .pure _).onFailure

end Backend.Careful

/-- Whether no call of a backend succeeds on a state. -/
structure Backend.Broken (b : Backend σ) (s : σ) : Prop where
  /-- No key can be looked up. -/
  getItem (key : String) : FailsOn (b.getItem key) s
  /-- No string can be put under a key. -/
  setItem (key value : String) : FailsOn (b.setItem key value) s
  /-- No key can be dropped. -/
  removeItem (key : String) : FailsOn (b.removeItem key) s
  /-- The keys cannot be listed. -/
  keys : FailsOn b.keys s

theorem Call.exists_of_not_isVariable {c : Call} (hc : c.isVariable = false) :
    ∃ id, c = .increment id ∨ c = .decrement id ∨ c = .counter id := by
  cases c with
  | set name value => exact absurd hc (by simp [isVariable])
  | get name | reset name | delete name => exact absurd hc (by simp [isVariable])
  | list => exact absurd hc (by simp [isVariable])
  | increment id => exact ⟨id, .inl rfl⟩
  | decrement id => exact ⟨id, .inr (.inl rfl)⟩
  | counter id => exact ⟨id, .inr (.inr rfl)⟩

/-- Calls about variables fail where the records cannot be loaded. -/
theorem Call.failsOn_of_load {b : Backend σ} {s : σ} (h : FailsOn (load b) s) {c : Call}
    (hc : c.isVariable = true) : FailsOn (c.perform b) s := by
  -- All of them begin by loading the records.
  cases c with
  | set name value => exact (h.bind _).bind _
  | get name | reset name | delete name => exact (h.bind _).bind _
  | list => exact h.bind _
  | increment id | decrement id | counter id => exact absurd hc (by simp [isVariable])

/-- Calls about counters fail where no counter can be read. -/
theorem Call.failsOn_of_counter {b : Backend σ} {s : σ} (h : ∀ id, FailsOn (Store.counter b id) s)
    {c : Call} (hc : c.isVariable = false) : FailsOn (c.perform b) s := by
  obtain ⟨id, rfl | rfl | rfl⟩ := Call.exists_of_not_isVariable hc
  · exact ((h id).bind _).bind _
  · exact ((h id).bind _).bind _
  · exact (h id).bind _

/-- No operation succeeds if no call of the backend does: every operation begins with one. -/
theorem Backend.Broken.perform {b : Backend σ} {s : σ} (h : b.Broken s) (op : Operation) :
    FailsOn (op.perform b) s := by
  cases op with
  | store c =>
    refine FailsOn.bind ?_ _
    cases hc : c.isVariable with
    | true => exact Call.failsOn_of_load ((h.getItem variablesKey).bind _) hc
    | false => exact Call.failsOn_of_counter (fun id => (h.getItem (counterKey id)).bind _) hc
  | backend c =>
    refine FailsOn.bind ?_ _
    cases c with
    | get key => exact (h.getItem key).bind _
    | set key value => exact (h.setItem key value).bind _
    | remove key => exact (h.removeItem key).bind _
    | keys => exact h.keys.bind _

/-! ## §3 The file at a path -/

/-- The bytes at a path; a file that has yet to be made has none. -/
def bytesAt (path : String) (files : Tree) : Except Failure ByteArray :=
  (openFile files path).map (·.getD .empty)

section Path

variable {path : String} {files : Tree} {file : FileState}

theorem bytesAt_eq_ok_iff {content : ByteArray} : bytesAt path files = .ok content ↔
    ∃ file, openFile files path = .ok file ∧ file.getD .empty = content := by
  unfold bytesAt
  cases openFile files path <;> simp [Except.map]

/-- What can be opened but is no regular file is a device. -/
theorem exists_device (hopen : openFile files path = .ok file)
    (hholds : holdsFile files path = false) : ∃ key, files.locate path = .ok key ∧
      (files.entry? key = some .sink ∨ files.entry? key = some .zeros) := by
  cases hlocate : files.locate path with
  | error e =>
    simp only [openFile, hlocate] at hopen
    exact absurd hopen (by simp)
  | ok key =>
    refine ⟨key, rfl, ?_⟩
    simp only [openFile, holdsFile, hlocate] at hopen hholds
    cases hentry : files.entry? key with
    -- Where nothing is yet, what can be opened can be made, so a file is held.
    | none =>
      rw [hentry] at hopen hholds
      dsimp only at hopen hholds
      cases hparent : files.parentExists key with
      | error e =>
        rw [hparent] at hopen
        exact absurd hopen (by simp)
      | ok u =>
        rw [hparent] at hopen hholds
        cases hslash : path.endsWith "/" with
        | true => simp [hslash] at hopen
        | false => simp [hslash, Except.toBool] at hholds
    | some entry =>
      rw [hentry] at hopen hholds
      cases entry with
      | file content executable => exact absurd hholds (by simp)
      | directory => exact absurd hopen (by simp)
      | program name => exact absurd hopen (by simp)
      | sink => exact .inl rfl
      | zeros => exact .inr rfl

theorem write_device {key : String} (hlocate : files.locate path = .ok key)
    (hdevice : files.entry? key = some .sink ∨ files.entry? key = some .zeros)
    (content : ByteArray) : files.write path content = .ok files := by
  simp only [Tree.write, hlocate, bind, Except.bind]
  rcases hdevice with hentry | hentry
  · simp only [hentry]
  · simp only [hentry]

/-- What can be opened but is no regular file has no bytes and keeps none. -/
theorem device_of_not_holdsFile (hopen : openFile files path = .ok file)
    (hholds : holdsFile files path = false) :
    file = some .empty ∧ ∀ file', closeFile files path file' = files := by
  obtain ⟨key, hlocate, hdevice⟩ := exists_device hopen hholds
  refine ⟨?_, fun file' => ?_⟩
  · simp only [openFile, hlocate] at hopen
    rcases hdevice with hentry | hentry
    · rw [hentry] at hopen
      exact (Except.ok.inj hopen).symm
    · rw [hentry] at hopen
      exact (Except.ok.inj hopen).symm
  · cases file' with
    | none => rfl
    | some content => simp only [closeFile, write_device hlocate hdevice]

theorem holdsFile_of_bytesAt {content : ByteArray} (hbytes : bytesAt path files = .ok content)
    (hne : content ≠ .empty) : holdsFile files path = true := by
  obtain ⟨file, hopen, rfl⟩ := bytesAt_eq_ok_iff.1 hbytes
  by_contra hholds
  obtain ⟨rfl, -⟩ := device_of_not_holdsFile hopen (Bool.not_eq_true _ ▸ hholds)
  exact hne rfl

theorem bytesAt_closeFile (hopen : openFile files path = .ok file) :
    bytesAt path (closeFile files path (some (file.getD .empty))) = bytesAt path files := by
  cases hholds : holdsFile files path with
  | false => rw [(device_of_not_holdsFile hopen hholds).2]
  | true =>
    rw [bytesAt, bytesAt, (openFile_closeFile hholds _).1, hopen]
    rfl

theorem leaves_readingItems (f : Items → α) : Leaves (bytesAt path) (onFile path (readingItems f)) := by
  intro files
  unfold onFile readingItems
  cases hopen : openFile files path with
  | error e => rfl
  | ok file =>
    dsimp only
    cases decodeItems (file.getD .empty) with
    | ok d => exact bytesAt_closeFile hopen
    | error e => exact bytesAt_closeFile hopen

theorem leavesOnFailure_changingItems (f : Items → Items) :
    LeavesOnFailure (bytesAt path) (onFile path (changingItems f)) := by
  intro files e files' herror
  unfold onFile changingItems at herror
  cases hopen : openFile files path with
  | error e =>
    rw [hopen] at herror
    cases herror
    rfl
  | ok file =>
    rw [hopen] at herror
    dsimp only at herror
    cases hdecode : decodeItems (file.getD .empty) with
    | ok d =>
      rw [hdecode] at herror
      cases herror
    | error e' =>
      rw [hdecode] at herror
      cases herror
      exact bytesAt_closeFile hopen

/-- The backend in a file changes its bytes only by a write that succeeds. -/
theorem Backend.atPath_careful (path : String) : (Backend.atPath path).Careful (bytesAt path) :=
  ⟨fun _ => leaves_readingItems _, fun _ _ => leavesOnFailure_changingItems _,
    fun _ => leavesOnFailure_changingItems _, leaves_readingItems _⟩

/-- Where the bytes stand for no items, no call succeeds. -/
theorem Backend.atPath_broken {content : ByteArray} {e : Failure}
    (hbytes : bytesAt path files = .ok content) (hcontent : decodeItems content = .error e) :
    (Backend.atPath path).Broken files := by
  obtain ⟨file, hopen, rfl⟩ := bytesAt_eq_ok_iff.1 hbytes
  have hread {α : Type} (f : Items → α) : FailsOn (onFile path (readingItems f)) files :=
    ⟨e, closeFile files path (some (file.getD .empty)), by
      simp only [onFile, hopen, readingItems, hcontent]⟩
  have hchange (f : Items → Items) : FailsOn (onFile path (changingItems f)) files :=
    ⟨e, closeFile files path (some (file.getD .empty)), by
      simp only [onFile, hopen, changingItems, hcontent]⟩
  exact ⟨fun _ => hread _, fun _ _ => hchange _, fun _ => hchange _, hread _⟩

theorem getItem_atPath {content : ByteArray} {d : Items} (hbytes : bytesAt path files = .ok content)
    (hd : decodeItems content = .ok d) (key : String) :
    ∃ files', (Backend.atPath path).getItem key files = .ok (d.get? key) files' ∧
      bytesAt path files' = .ok content := by
  have hleaves := (Backend.atPath_careful path).getItem key files
  obtain ⟨file, hopen, rfl⟩ := bytesAt_eq_ok_iff.1 hbytes
  have hget : (Backend.atPath path).getItem key files =
      .ok (d.get? key) (closeFile files path (some (file.getD .empty))) := by
    simp only [Backend.atPath, Backend.file, onFile, hopen, readingItems, hd]
  rw [hget, hbytes] at hleaves
  exact ⟨_, hget, hleaves⟩

/-- The bytes at a path stand for the items that are kept there. -/
theorem treeItems?_eq_some_iff (hholds : holdsFile files path = true) {d : Items} :
    treeItems? path files = some d ↔
      ∃ content, bytesAt path files = .ok content ∧ decodeItems content = .ok d := by
  constructor
  · intro h
    obtain ⟨-, file, hopen, hdecode⟩ := exists_file_of_treeItems? h
    exact ⟨_, bytesAt_eq_ok_iff.2 ⟨file, hopen, rfl⟩, hdecode⟩
  · rintro ⟨content, hbytes, hdecode⟩
    obtain ⟨file, hopen, rfl⟩ := bytesAt_eq_ok_iff.1 hbytes
    simp only [treeItems?, if_pos hholds, hopen, FileState.items?, hdecode, Except.toOption]

end Path

/-! ## §4 The two layers of what is stored -/

/-- The key that a call is about. -/
def Call.ownKey : Call → String
  | increment id | decrement id | counter id => counterKey id
  | set _ _ | get _ | reset _ | delete _ | list => variablesKey

/-- Calls about counters succeed on any items, and change nothing but their own key. -/
theorem Call.perform_memory_counter {c : Call} (hc : c.isVariable = false) (d : Items) :
    ∃ a d', c.perform Backend.memory d = .ok a d' ∧ c.ownKey ≠ variablesKey ∧
      ∀ key ≠ c.ownKey, d'.get? key = d.get? key := by
  have hstep (id : String) (delta : Int) : ∃ text d', step Backend.memory id delta d = .ok text d' ∧
      ∀ key ≠ counterKey id, d'.get? key = d.get? key :=
    ⟨_, _, step_memory id delta d, fun key hkey => by rw [Dict.get?_insert, if_neg hkey]⟩
  obtain ⟨id, rfl | rfl | rfl⟩ := Call.exists_of_not_isVariable hc
  · obtain ⟨text, d', hperform, hframe⟩ := hstep id 1
    exact ⟨.text text, d', bind_of_ok hperform, counterKey_ne id, hframe⟩
  · obtain ⟨text, d', hperform, hframe⟩ := hstep id (-1)
    exact ⟨.text text, d', bind_of_ok hperform, counterKey_ne id, hframe⟩
  · exact ⟨.number _, d, bind_of_ok (counter_memory id d), counterKey_ne id, fun _ _ => rfl⟩

section Absent

variable {b : Backend σ} {s s₁ : σ} {records : List Record} {name : String}
  (hload : load b s = .ok records s₁) (habsent : ∀ r ∈ records, r.name ≠ name)
include hload habsent

theorem reset_of_absent : reset b name s = .ok "" s₁ := by
  have hnone : resetIn? records name = none := by
    rw [resetIn?, List.find?_eq_none.2 (by simpa using habsent), Option.map_none]
  rw [reset, bind_of_ok hload, hnone]
  rfl

theorem delete_of_absent : delete b name s = .ok () s₁ := by
  have hsame : deleteIn records name = records := List.filter_eq_self.2 (by simpa using habsent)
  rw [delete, bind_of_ok hload]
  simp only [hsame, ne_eq, not_true_eq_false, ↓reduceIte]
  rfl

end Absent

section Contents

variable {path : String} {files : Tree} {content : ByteArray}
  (hbytes : bytesAt path files = .ok content)
include hbytes

theorem load_atPath {d : Items} {records : List Record} (hd : decodeItems content = .ok d)
    (hrecords : recordsIn d = .ok records) :
    ∃ files', load (Backend.atPath path) files = .ok records files' ∧
      bytesAt path files' = .ok content := by
  obtain ⟨files', hget, hsame⟩ := getItem_atPath hbytes hd variablesKey
  refine ⟨files', ?_, hsame⟩
  rw [load, bind_of_ok hget]
  unfold recordsIn at hrecords
  cases hraw : d.get? variablesKey with
  | none =>
    rw [hraw] at hrecords
    cases hrecords
    rfl
  | some raw =>
    rw [hraw] at hrecords
    dsimp only at hrecords ⊢
    rw [hrecords]
    rfl

theorem failsOn_load_atPath {d : Items} {raw : String} (hd : decodeItems content = .ok d)
    (hraw : d.get? variablesKey = some raw) (hlist : ∀ records, ¬IsRecordList raw records) :
    FailsOn (load (Backend.atPath path)) files := by
  obtain ⟨files', hget, -⟩ := getItem_atPath hbytes hd variablesKey
  cases hdecode : decodeRecords raw with
  | ok records => exact absurd (decodeRecords_eq_ok_iff.1 hdecode) (hlist records)
  | error e =>
    refine ⟨e, files', ?_⟩
    rw [load, bind_of_ok hget, hraw]
    dsimp only
    rw [hdecode]
    rfl

/-- Calls about counters succeed on any object of strings. -/
theorem Call.perform_atPath_counter {c : Call} (hc : c.isVariable = false)
    {fields : List (String × String)} (hobject : IsObject content fields) :
    ∃ a files' content' d', c.perform (Backend.atPath path) files = .ok a files' ∧
      bytesAt path files' = .ok content' ∧ decodeItems content' = .ok d' ∧
      c.ownKey ≠ variablesKey ∧
      ∀ key ≠ c.ownKey, d'.get? key = (Dict.ofList fields).get? key := by
  have hd : decodeItems content = .ok (Dict.ofList fields) :=
    decodeItems_eq_ok_iff.2 (.inr ⟨fields, hobject, rfl⟩)
  -- The text of an object is not blank, so there is a regular file, which the call keeps.
  have hne : content ≠ .empty := by
    rintro rfl
    obtain ⟨text, htext, hparse⟩ := hobject
    have hempty : text = "" := String.toByteArray_inj.1 htext.symm
    rw [hempty, Json.parseAsWritten?_of_isBlankText rfl] at hparse
    exact absurd hparse (by simp)
  have hholds := holdsFile_of_bytesAt hbytes hne
  obtain ⟨a, d', hmemory, hkey, hframe⟩ := Call.perform_memory_counter hc (Dict.ofList fields)
  obtain ⟨files', hperform, hitems⟩ := c.perform_simulates (Backend.atPath_keeps path) files _
    ((treeItems?_eq_some_iff hholds).2 ⟨content, hbytes, hd⟩)
  rw [hmemory] at hperform hitems
  obtain ⟨hholds', -⟩ := exists_file_of_treeItems? hitems
  obtain ⟨content', hbytes', hd'⟩ := (treeItems?_eq_some_iff hholds').1 hitems
  exact ⟨a, files', content', d', hperform, hbytes', hd', hkey, hframe⟩

/-- **Failures change nothing and are contained.**  Let a store file, which may have yet to be made, have
any bytes.  Every operation that fails leaves them.  If they are neither blank nor a JSON object of
strings, every operation fails.  If they are such an object and the text of its record list is no JSON
list of records, every call about variables fails, while every call about a counter succeeds and leaves
that text and what is under every key but its own.  If the records can be read, resetting or deleting
a variable that is not among them succeeds and leaves the bytes. -/
theorem failures_contained :
    (∀ op e files', Operation.perform (Backend.atPath path) op files = .error e files' →
      bytesAt path files' = .ok content) ∧
    (¬IsBlankContent content → (∀ fields, ¬IsObject content fields) →
      ∀ op, FailsOn (Operation.perform (Backend.atPath path) op) files) ∧
    (∀ fields raw, IsObject content fields → (Dict.ofList fields).get? variablesKey = some raw →
      (∀ records, ¬IsRecordList raw records) → ∀ c : Call,
        (c.isVariable = true → FailsOn (c.perform (Backend.atPath path)) files) ∧
        (c.isVariable = false → ∃ a files' content' d',
          c.perform (Backend.atPath path) files = .ok a files' ∧
          bytesAt path files' = .ok content' ∧ decodeItems content' = .ok d' ∧
          d'.get? variablesKey = some raw ∧
          ∀ key ≠ c.ownKey, d'.get? key = (Dict.ofList fields).get? key)) ∧
    (∀ d records name, decodeItems content = .ok d → recordsIn d = .ok records →
      (∀ r ∈ records, r.name ≠ name) → ∃ files',
        (Call.reset name).perform (Backend.atPath path) files = .ok (.text "") files' ∧
        (Call.delete name).perform (Backend.atPath path) files = .ok .done files' ∧
        bytesAt path files' = .ok content) := by
  refine ⟨fun op e files' herror => ?_, fun hblank hobject op => ?_,
    fun fields raw hobject hraw hlist c => ⟨fun hc => ?_, fun hc => ?_⟩,
    fun d records name hd hrecords habsent => ?_⟩
  · rw [(Backend.atPath_careful path).perform op files e files' herror, hbytes]
  · cases hd : decodeItems content with
    | ok d =>
      rcases decodeItems_eq_ok_iff.1 hd with ⟨hblank', -⟩ | ⟨fields, hobject', -⟩
      · exact absurd hblank' hblank
      · exact absurd hobject' (hobject fields)
    | error e => exact (Backend.atPath_broken hbytes hd).perform op
  · have hd := decodeItems_eq_ok_iff.2 (.inr ⟨fields, hobject, rfl⟩)
    exact Call.failsOn_of_load (failsOn_load_atPath hbytes hd hraw hlist) hc
  · obtain ⟨a, files', content', d', hperform, hbytes', hd', hkey, hframe⟩ :=
      Call.perform_atPath_counter hbytes hc hobject
    exact ⟨a, files', content', d', hperform, hbytes', hd',
      (hframe variablesKey hkey.symm).trans hraw, hframe⟩
  · obtain ⟨files', hload, hsame⟩ := load_atPath hbytes hd hrecords
    exact ⟨files', bind_of_ok (reset_of_absent hload habsent),
      bind_of_ok (delete_of_absent hload habsent), hsame⟩

end Contents

/-- A record list that is cut off: no variable can be read, and a counter is still stepped. -/
theorem failures_contained_cut : ∃ files,
    bytesAt "store.json" files =
      .ok (encodeItems (.ofList [(variablesKey, "["), (counterKey "n", "4")])) ∧
    FailsOn ((Call.get "n").perform (Backend.atPath "store.json")) files ∧
    ∃ a files' content' d', (Call.increment "n").perform (Backend.atPath "store.json") files =
        .ok a files' ∧
      bytesAt "store.json" files' = .ok content' ∧ decodeItems content' = .ok d' ∧
      d'.get? variablesKey = some "[" := by
  have hopen := (openFile_insert_file locate_store_json rfl
    (encodeItems (.ofList [(variablesKey, "["), (counterKey "n", "4")])) false).1
  have hbytes := bytesAt_eq_ok_iff.2 ⟨_, hopen, rfl⟩
  have hobject : IsObject (encodeItems (.ofList [(variablesKey, "["), (counterKey "n", "4")]))
      (Dict.ofList [(variablesKey, "["), (counterKey "n", "4")]).entries :=
    ⟨_, rfl, Json.parse_indentedStrings _⟩
  have hraw : (Dict.ofList (Dict.ofList [(variablesKey, "["), (counterKey "n", "4")]).entries).get?
      variablesKey = some "[" := by
    rw [Dict.ofList_entries]
    decide +kernel
  have hlist (records : List Record) : ¬IsRecordList "[" records := by
    rintro ⟨values, hparse, -⟩
    have hnone : (Json.parseFields? Record.keys.contains "[").isNone = true := by decide +kernel
    rw [hparse] at hnone
    exact absurd hnone (by simp)
  have hcontained := (failures_contained hbytes).2.2.1 _ "[" hobject hraw hlist
  obtain ⟨a, files', content', d', hperform, hbytes', hd', hraw', -⟩ :=
    (hcontained (.increment "n")).2 rfl
  exact ⟨_, hbytes, (hcontained (.get "n")).1 rfl, a, files', content', d', hperform, hbytes', hd',
    hraw'⟩

end Stencil.Store
