import Stencil.Machine
import Stencil.Proofs.Store.Contents

/-!
# Backends That Keep Items

An action on some state simulates one on items if, whatever items the state stands for, both give
the same answer and afterwards the state stands for the items that the other is left with.  A backend
keeps items if its operations simulate those of the backend in memory.  Whatever is made of the
operations of such a backend then behaves as on items in memory.

A file keeps items unless the path leads to a device, and so does every place of a store.

Main statements: `Simulates.bind`, `Backend.file_keeps` and `Place.backend_keeps`.
-/

namespace Stencil.Store

variable {ε ε' α β σ τ : Type}

/-! ## §1 Actions -/

/-- One action after another succeeds only if both do. -/
theorem ok_of_bind {act : Action ε σ α} {f : α → Action ε σ β} {s s' : σ} {b : β}
    (h : (act >>= f) s = .ok b s') : ∃ a s₁, act s = .ok a s₁ ∧ f a s₁ = .ok b s' := by
  change EStateM.bind act f s = .ok b s' at h
  unfold EStateM.bind at h
  split at h
  · rename_i a s₁ hact
    exact ⟨a, s₁, hact, h⟩
  · exact absurd h (by simp)

/-- One action after another succeeds if both do. -/
theorem bind_of_ok {act : Action ε σ α} {f : α → Action ε σ β} {s s₁ : σ} {a : α}
    (h : act s = .ok a s₁) : (act >>= f) s = f a s₁ := by
  change EStateM.bind act f s = _
  simp only [EStateM.bind, h]

/-- What comes after a failing action is not done. -/
theorem bind_of_error {act : Action ε σ α} {f : α → Action ε σ β} {s s₁ : σ} {e : ε}
    (h : act s = .error e s₁) : (act >>= f) s = .error e s₁ := by
  change EStateM.bind act f s = _
  simp only [EStateM.bind, h]

/-- Actions for a list succeed exactly if each does in turn. -/
theorem mapM_cons_eq_ok {f : α → Action ε σ β} {a : α} {as : List α} {bs : List β} {s s' : σ} :
    (a :: as).mapM f s = .ok bs s' ↔
      ∃ b s₁ bs', f a s = .ok b s₁ ∧ as.mapM f s₁ = .ok bs' s' ∧ bs = b :: bs' := by
  rw [List.mapM_cons]
  constructor
  · intro h
    obtain ⟨b, s₁, hb, h⟩ := ok_of_bind h
    obtain ⟨bs', s₂, hbs, h⟩ := ok_of_bind h
    obtain ⟨rfl, rfl⟩ : b :: bs' = bs ∧ s₂ = s' := by
      simpa [Pure.pure, EStateM.pure] using h
    exact ⟨b, s₁, bs', hb, hbs, rfl⟩
  · rintro ⟨b, s₁, bs', hb, hbs, rfl⟩
    rw [bind_of_ok hb, bind_of_ok hbs]
    rfl

theorem mapM_append_eq_ok {f : α → Action ε σ β} {as as' : List α} {bs : List β} {s s' : σ} :
    (as ++ as').mapM f s = .ok bs s' ↔
      ∃ bs₁ s₁ bs₂, as.mapM f s = .ok bs₁ s₁ ∧ as'.mapM f s₁ = .ok bs₂ s' ∧ bs = bs₁ ++ bs₂ := by
  rw [List.mapM_append]
  constructor
  · intro h
    obtain ⟨bs₁, s₁, hbs₁, h⟩ := ok_of_bind h
    obtain ⟨bs₂, s₂, hbs₂, h⟩ := ok_of_bind h
    obtain ⟨rfl, rfl⟩ : bs₁ ++ bs₂ = bs ∧ s₂ = s' := by
      simpa [Pure.pure, EStateM.pure] using h
    exact ⟨bs₁, s₁, bs₂, hbs₁, hbs₂, rfl⟩
  · rintro ⟨bs₁, s₁, bs₂, hbs₁, hbs₂, rfl⟩
    rw [bind_of_ok hbs₁, bind_of_ok hbs₂]
    rfl

theorem mapM_nil_eq_ok {f : α → Action ε σ β} {bs : List β} {s s' : σ} :
    [].mapM f s = .ok bs s' ↔ bs = [] ∧ s' = s := by
  simp [Pure.pure, EStateM.pure, eq_comm]

/-! ## §2 Simulation -/

/-- A result with another state. -/
def withState (s : σ) : EStateM.Result ε τ α → EStateM.Result ε σ α
  | .ok a _ => .ok a s
  | .error e _ => .error e s

/-- The state of a result. -/
def stateOf : EStateM.Result ε σ α → σ
  | .ok _ s => s
  | .error _ s => s

/-- Whether an action simulates one on items, given the items that states stand for. -/
def Simulates (items? : σ → Option Items) (act : Action ε σ α) (ref : Action ε Items α) : Prop :=
  ∀ s d, items? s = some d →
    ∃ s', act s = withState s' (ref d) ∧ items? s' = some (stateOf (ref d))

theorem Simulates.pure (items? : σ → Option Items) (a : α) :
    Simulates (ε := ε) items? (pure a) (pure a) :=
  fun s _ h => ⟨s, rfl, h⟩

theorem Simulates.throw (items? : σ → Option Items) (e : ε) :
    Simulates (ε := ε) (α := α) items? (throw e) (throw e) :=
  fun s _ h => ⟨s, rfl, h⟩

/-- One action after another simulates the one after the other. -/
theorem Simulates.bind {items? : σ → Option Items} {act : Action ε σ α} {ref : Action ε Items α}
    (h : Simulates items? act ref) {f : α → Action ε σ β} {g : α → Action ε Items β}
    (hfg : ∀ a, Simulates items? (f a) (g a)) : Simulates items? (act >>= f) (ref >>= g) := by
  intro s d hs
  obtain ⟨s', hact, hs'⟩ := h s d hs
  change ∃ s', EStateM.bind act f s = withState s' (EStateM.bind ref g d) ∧
    items? s' = some (stateOf (EStateM.bind ref g d))
  simp only [EStateM.bind, hact]
  cases href : ref d with
  | ok a d' => exact hfg a s' d' (by rw [hs', href]; rfl)
  | error e d' => exact ⟨s', rfl, by rw [hs', href]; rfl⟩

theorem Simulates.mapError {items? : σ → Option Items} {act : Action ε σ α}
    {ref : Action ε Items α} (h : Simulates items? act ref) (f : ε → ε') :
    Simulates items? (act.mapError f) (ref.mapError f) := by
  intro s d hs
  obtain ⟨s', hact, hs'⟩ := h s d hs
  refine ⟨s', ?_, ?_⟩
  · simp only [Action.mapError, hact]
    cases ref d <;> rfl
  · rw [hs', Action.mapError]
    cases ref d <;> rfl

/-! ## §3 Backends -/

/-- Whether a backend keeps items, given those that states stand for. -/
structure Backend.Keeps (b : Backend σ) (items? : σ → Option Items) : Prop where
  /-- A key is looked up. -/
  getItem (key : String) : Simulates items? (b.getItem key) (memory.getItem key)
  /-- A string is put under a key. -/
  setItem (key value : String) : Simulates items? (b.setItem key value) (memory.setItem key value)
  /-- A key is dropped. -/
  removeItem (key : String) : Simulates items? (b.removeItem key) (memory.removeItem key)
  /-- The keys are listed. -/
  keys : Simulates items? b.keys memory.keys

theorem Backend.memory_keeps : Backend.memory.Keeps some := by
  have hself {α : Type} (act : Action Failure Items α) : Simulates some act act := by
    rintro s d ⟨⟩
    exact ⟨stateOf (act s), by cases act s <;> rfl, rfl⟩
  exact ⟨fun _ => hself _, fun _ _ => hself _, fun _ => hself _, hself _⟩

/-- A backend keeps its items in a part of a larger state. -/
theorem Backend.Keeps.on {b : Backend σ} {items? : σ → Option Items} (h : b.Keeps items?)
    {part : τ → σ} {put : σ → τ → τ} (hput : ∀ s t, part (put s t) = s) :
    (b.on part put).Keeps fun t => items? (part t) := by
  have hlift {α : Type} {act : Action Failure σ α} {ref : Action Failure Items α}
      (hact : Simulates items? act ref) :
      Simulates (fun t => items? (part t)) (Backend.on.lift part put act) ref := by
    intro t d ht
    obtain ⟨s', hs', hitems⟩ := hact (part t) d ht
    refine ⟨put s' t, ?_, by simpa only [hput] using hitems⟩
    simp only [Backend.on.lift, hs']
    cases ref d <;> rfl
  exact ⟨fun key => hlift (h.getItem key), fun key value => hlift (h.setItem key value),
    fun key => hlift (h.removeItem key), hlift h.keys⟩

/-! ## §4 Files -/

/-- The items that a content of a store file stands for. -/
def FileState.items? (file : FileState) : Option Items :=
  (decodeItems (file.getD .empty)).toOption

/-- The backend in a file keeps the items that the content stands for. -/
theorem Backend.file_keeps : Backend.file.Keeps FileState.items? := by
  -- Every operation first decodes the content, and then reads or changes the items there.
  have hdecode {file : FileState} {d : Items} (h : file.items? = some d) :
      decodeItems (file.getD .empty) = .ok d := by
    unfold FileState.items? at h
    cases hd : decodeItems (file.getD .empty) with
    | ok d' => rw [hd] at h; cases h; rfl
    | error e => rw [hd] at h; cases h
  have hread {α : Type} (f : Items → α) :
      Simulates FileState.items? (readingItems f) fun d => .ok (f d) d := by
    intro file d h
    refine ⟨some (file.getD .empty), ?_, h⟩
    simp only [readingItems, hdecode h]
    rfl
  have hchange (f : Items → Items) :
      Simulates FileState.items? (changingItems f) fun d => .ok () (f d) := by
    intro file d h
    refine ⟨some (encodeItems (f d)), ?_, ?_⟩
    · simp only [changingItems, hdecode h]
      rfl
    · simp only [FileState.items?, Option.getD_some, decodeItems_encodeItems]
      rfl
  exact ⟨fun key => hread (·.get? key), fun key value => hchange (·.insert key value),
    fun key => hchange (·.erase key), hread (·.keys)⟩

/-! ## §5 Files in a tree -/

open Files

theorem isDirectoryKey_insert_file {t : Tree} {key : String} (h : t.isDirectoryKey key = false)
    (content : ByteArray) (executable : Bool) (k : String) :
    Tree.isDirectoryKey (t.insert key (.file content executable)) k = t.isDirectoryKey k := by
  unfold Tree.isDirectoryKey at h ⊢
  rw [Dict.get?_insert]
  by_cases hk : k = key
  · subst hk
    rw [h, if_pos rfl]
    simp only [Bool.or_eq_false_iff] at h
    simp [h.1]
  · rw [if_neg hk]

/-- Where a component leads from a directory: it stays, goes up, is too long, or goes down. -/
def leadsTo (start name : String) : Option String :=
  if name == "" || name == "." then some start
  else if name == ".." then some (parent start)
  else if nameLimit < name.utf8ByteSize then none
  else some (child start name)

/-- Components are followed one by one, each from a directory. -/
theorem follow_cons_eq_ok_iff {t : Tree} {start name key : String} {names : List String} :
    t.follow start (name :: names) = .ok key ↔ t.isDirectoryKey start = true ∧
      ∃ next, leadsTo start name = some next ∧ t.follow next names = .ok key := by
  rw [Tree.follow, leadsTo]
  cases t.isDirectoryKey start with
  | false => simp
  | true =>
    simp only [Bool.not_true, Bool.false_eq_true, if_false, true_and]
    split_ifs <;> simp

theorem follow_of_isDirectoryKey {t t' : Tree}
    (h : ∀ k, t'.isDirectoryKey k = t.isDirectoryKey k) {start key : String} {names : List String}
    (hkey : t.follow start names = .ok key) : t'.follow start names = .ok key := by
  induction names generalizing start with
  | nil => exact hkey
  | cons name names ih =>
    obtain ⟨hstart, next, hnext, hrest⟩ := follow_cons_eq_ok_iff.1 hkey
    exact follow_cons_eq_ok_iff.2 ⟨(h start).trans hstart, next, hnext, ih hrest⟩

theorem locate_insert_file {t : Tree} {key path k : String} (h : t.isDirectoryKey key = false)
    (content : ByteArray) (executable : Bool) (hk : t.locate path = .ok k) :
    Tree.locate (t.insert key (.file content executable)) path = .ok k := by
  unfold Tree.locate at hk ⊢
  split at hk
  · exact absurd hk (by simp)
  · split at hk
    · exact absurd hk (by simp)
    · split at hk
      · exact absurd hk (by simp)
      · rename_i hempty hnull hlong
        rw [if_neg hempty, if_neg hnull, if_neg hlong]
        exact follow_of_isDirectoryKey (isDirectoryKey_insert_file h content executable) hk

/-- Whether a path leads to where a file is, or can be made. -/
def holdsFile (files : Tree) (path : String) : Bool :=
  match files.locate path with
  | .error _ => false
  | .ok key =>
    match files.entry? key with
    | some (.file _ _) => true
    | some _ => false
    | none => (files.parentExists key).toBool && !path.endsWith "/"

/-- Such a path leads to no directory. -/
theorem locate_of_holdsFile {files : Tree} {path : String} (h : holdsFile files path = true) :
    ∃ key, files.locate path = .ok key ∧ files.isDirectoryKey key = false := by
  cases hlocate : files.locate path with
  | error e => simp [holdsFile, hlocate] at h
  | ok key =>
    refine ⟨key, rfl, ?_⟩
    rw [← Bool.not_eq_true]
    intro hkey
    simp [holdsFile, hlocate, Tree.entry?, hkey] at h

theorem openFile_insert_file {files : Tree} {key path : String}
    (hlocate : files.locate path = .ok key) (hkey : files.isDirectoryKey key = false)
    (content : ByteArray) (executable : Bool) :
    openFile (files.insert key (.file content executable)) path = .ok (some content) ∧
      holdsFile (files.insert key (.file content executable)) path = true := by
  have hlocate' := locate_insert_file hkey content executable hlocate
  have hentry : Tree.entry? (files.insert key (.file content executable)) key =
      some (.file content executable) := by
    rw [Tree.entry?, isDirectoryKey_insert_file hkey, hkey, if_neg (by simp), Dict.get?_insert,
      if_pos rfl]
  constructor
  · simp only [openFile, hlocate', hentry]
  · simp only [holdsFile, hlocate', hentry]

/-- A file that was written is there when it is opened again. -/
theorem openFile_closeFile {files : Tree} {path : String} (h : holdsFile files path = true)
    (content : ByteArray) :
    openFile (closeFile files path (some content)) path = .ok (some content) ∧
      holdsFile (closeFile files path (some content)) path = true := by
  obtain ⟨key, hlocate, hkey⟩ := locate_of_holdsFile h
  simp only [holdsFile, hlocate] at h
  -- A file that is there is written over and stays executable, and one that is not is made.
  split at h
  · rename_i content' executable hentry
    have hclose : closeFile files path (some content) =
        files.insert key (.file content executable) := by
      simp only [closeFile, Tree.write, hlocate, bind, Except.bind, hentry]
    rw [hclose]
    exact openFile_insert_file hlocate hkey content executable
  · exact absurd h (by simp)
  · rename_i hentry
    have hclose : closeFile files path (some content) =
        files.insert key (.file content false) := by
      rw [Bool.and_eq_true, Bool.not_eq_true'] at h
      obtain ⟨hparent, hslash⟩ := h
      cases hp : files.parentExists key with
      | error e => rw [hp] at hparent; exact absurd hparent (by simp [Except.toBool])
      | ok u =>
        simp only [closeFile, Tree.write, hlocate, bind, Except.bind, hentry, hslash, hp,
          Bool.false_eq_true, ↓reduceIte]
    rw [hclose]
    exact openFile_insert_file hlocate hkey content false

/-- The items that the file at a path stands for, if there is one or can be one. -/
def treeItems? (path : String) (files : Tree) : Option Items :=
  if holdsFile files path then
    match openFile files path with
    | .ok file => file.items?
    | .error _ => none
  else none

theorem Backend.atPath_keeps (path : String) : (Backend.atPath path).Keeps (treeItems? path) := by
  -- After every operation the file has a content.
  have hlift {α : Type} {act : Action Failure FileState α} {ref : Action Failure Items α}
      (hact : Simulates FileState.items? act ref)
      (hcontent : ∀ file, ∃ content, stateOf (act file) = some content) :
      Simulates (treeItems? path) (onFile path act) ref := by
    intro files d h
    unfold treeItems? at h
    split at h
    · rename_i hholds
      split at h
      · rename_i file hopen
        obtain ⟨file', hfile', hitems⟩ := hact file d h
        obtain ⟨content, hcontent⟩ := hcontent file
        obtain rfl : file' = some content := by
          rw [← hcontent, hfile']
          cases ref d <;> rfl
        obtain ⟨hopen', hholds'⟩ := openFile_closeFile hholds content
        refine ⟨closeFile files path (some content), ?_, ?_⟩
        · simp only [onFile, hopen, hfile']
          cases ref d <;> rfl
        · rw [treeItems?, if_pos hholds', hopen']
          exact hitems
      · exact absurd h (by simp)
    · exact absurd h (by simp)
  have hread {α : Type} (f : Items → α) (file : FileState) :
      ∃ content, stateOf (readingItems f file) = some content := by
    unfold readingItems
    dsimp only
    split <;> exact ⟨_, rfl⟩
  have hchange (f : Items → Items) (file : FileState) :
      ∃ content, stateOf (changingItems f file) = some content := by
    unfold changingItems
    dsimp only
    split <;> exact ⟨_, rfl⟩
  exact ⟨fun key => hlift (file_keeps.getItem key) (hread _),
    fun key value => hlift (file_keeps.setItem key value) (hchange _),
    fun key => hlift (file_keeps.removeItem key) (hchange _), hlift file_keeps.keys (hread _)⟩

/-! ## §6 Places -/

end Stencil.Store

namespace Stencil

/-- The items that a machine has at a place, if a store can be kept there. -/
def Place.items? : Place → Machine → Option Store.Items
  | memory, m => some m.items
  | file path, m => Store.treeItems? path m.files

theorem Place.backend_keeps (place : Place) : place.backend.Keeps place.items? := by
  cases place with
  | memory => exact Store.Backend.memory_keeps.on fun _ _ => rfl
  | file path => exact (Store.Backend.atPath_keeps path).on fun _ _ => rfl

end Stencil
