import Stencil.Proofs.Store.Backends
import Stencil.Proofs.Text.Parts

/-!
# Handles on a Store File

A handle on a store file is opened by making the directory of the file, and is nothing but the backend
at the path: it remembers nothing.  So however many are opened on one path, and whenever, calls through
them answer like calls on items in memory, and what is written is the object of those items.

Main statements: `prepare_of_holdsFile` (opening another handle changes nothing) and
`handles_refine_memory`.
-/

namespace Stencil.Store

open Files Text

/-! ## §1 Making the directory of a file -/

/-- The components of a path with a slash are those before its last one and what is after it. -/
theorem components_of_slash {path : String} {before after : List Char}
    (hpath : path.toList = before ++ '/' :: after) (hafter : '/' ∉ after) :
    components path = components (.ofList before) ++ [.ofList after] := by
  have hslash : ∀ a ∈ after, (a == '/') = false := fun a ha => by
    simpa using fun heq : a = '/' => hafter (heq ▸ ha)
  rw [components, components, hpath, splitWhere_append (by simp) hslash, String.toList_ofList,
    List.map_append]
  rfl

theorem isDirectoryKey_of_follow {t : Tree} {start dir : String} {names : List String}
    (h : t.follow start names = .ok dir) (hdir : t.isDirectoryKey dir = true) :
    t.isDirectoryKey start = true := by
  cases names with
  | nil =>
    obtain rfl : start = dir := Except.ok.inj h
    exact hdir
  | cons name names => exact (follow_cons_eq_ok_iff.1 h).1

/-- Components before the last one lead to a directory, from where the last one goes on. -/
theorem follow_concat {t : Tree} {start key name : String} {names : List String}
    (h : t.follow start (names ++ [name]) = .ok key) :
    ∃ dir, t.follow start names = .ok dir ∧ t.isDirectoryKey dir = true ∧
      t.follow dir [name] = .ok key := by
  induction names generalizing start with
  | nil => exact ⟨start, rfl, (follow_cons_eq_ok_iff.1 h).1, h⟩
  | cons first names ih =>
    obtain ⟨hstart, next, hnext, hrest⟩ := follow_cons_eq_ok_iff.1 h
    obtain ⟨dir, hdir, hisdir, hlast⟩ := ih hrest
    exact ⟨dir, follow_cons_eq_ok_iff.2 ⟨hstart, next, hnext, hdir⟩, hisdir, hlast⟩

/-- A component that leads to a directory is there already. -/
theorem makeAll_cons {t : Tree} {start name next : String} {names : List String}
    (hnext : leadsTo start name = some next) (hdir : t.isDirectoryKey next = true) :
    t.makeAll start (name :: names) = t.makeAll next names := by
  have hentry : t.entry? next = some .directory := if_pos hdir
  unfold leadsTo at hnext
  rw [Tree.makeAll]
  split_ifs at hnext with hstay hup hlong
  · rw [if_pos hstay, Option.some.inj hnext]
  · rw [if_neg hstay, if_pos hup, Option.some.inj hnext]
  · obtain rfl := Option.some.inj hnext
    simp only [if_neg hstay, if_neg hup, if_neg hlong, hentry]

theorem makeAll_of_follow {t : Tree} {start dir : String} {names : List String}
    (h : t.follow start names = .ok dir) (hdir : t.isDirectoryKey dir = true) :
    t.makeAll start names = .ok t := by
  induction names generalizing start with
  | nil => rfl
  | cons name names ih =>
    obtain ⟨-, next, hnext, hrest⟩ := follow_cons_eq_ok_iff.1 h
    rw [makeAll_cons hnext (isDirectoryKey_of_follow hrest hdir)]
    exact ih hrest

theorem follow_of_locate {t : Tree} {path key : String} (h : t.locate path = .ok key) :
    t.follow (if isAbsolute path then "/" else here) (components path) = .ok key := by
  unfold Tree.locate at h
  split at h
  · exact absurd h (by simp)
  · split at h
    · exact absurd h (by simp)
    · split at h
      · exact absurd h (by simp)
      · exact h

theorem isAbsolute_iff {path : String} : isAbsolute path = true ↔ ['/'] <+: path.toList :=
  String.startsWith_string_iff

theorem isAbsolute_root : isAbsolute "/" = true := isAbsolute_iff.2 (by simp)

/-- A path that ends with a slash leads to no file. -/
theorem dropWhileRight_of_holdsFile {files : Tree} {path : String}
    (h : holdsFile files path = true) : dropWhileRight (· == '/') path.toList = path.toList := by
  rw [dropWhileRight]
  cases hreverse : path.toList.reverse with
  | nil => rw [List.reverse_eq_nil_iff.1 hreverse]; rfl
  | cons c before =>
    have hpath : path.toList = before.reverse ++ [c] := by
      rw [← List.reverse_reverse path.toList, hreverse, List.reverse_cons]
    by_cases hc : c = '/'
    · -- The empty component behind the slash leads from a directory to itself.
      subst hc
      obtain ⟨key, hlocate, hkey⟩ := locate_of_holdsFile h
      have hfollow := follow_of_locate hlocate
      rw [components_of_slash hpath List.not_mem_nil] at hfollow
      obtain ⟨dir, -, hdir, hlast⟩ := follow_concat hfollow
      rw [Tree.follow, if_neg (by simp [hdir]), if_pos (by decide)] at hlast
      obtain rfl : dir = key := Except.ok.inj hlast
      exact absurd hdir (by simp [hkey])
    · rw [List.dropWhile_cons_of_neg (by simpa using hc), ← hreverse, List.reverse_reverse]

/-- Where a file is, or can be made, opening a handle changes nothing. -/
theorem prepare_of_holdsFile {files : Tree} {path : String} (h : holdsFile files path = true) :
    prepare path files = .ok () files := by
  have hslash := dropWhileRight_of_holdsFile h
  unfold prepare parentPath?
  rw [hslash]
  obtain ⟨key, hlocate, -⟩ := locate_of_holdsFile h
  have hfollow := follow_of_locate hlocate
  cases hsplit : splitLast '/' path.toList with
  | none => rfl
  | some parts =>
    obtain ⟨before, after⟩ := parts
    obtain ⟨hpath, hafter⟩ := splitLast_eq_some hsplit
    rw [components_of_slash hpath hafter] at hfollow
    obtain ⟨dir, hdir, hisdir, -⟩ := follow_concat hfollow
    -- The parent is the root, or what is in front of the last slash; either way it can be followed.
    cases before with
    | nil =>
      have hroot : files.makeDirectories "/" = .ok files := by
        rw [Tree.makeDirectories, isAbsolute_root]
        rfl
      simp only [hroot]
    | cons c before =>
      have habsolute : isAbsolute (.ofList (c :: before)) = isAbsolute path := by
        rw [Bool.eq_iff_iff, isAbsolute_iff, isAbsolute_iff, hpath, String.toList_ofList]
        simp
      have hmake : files.makeDirectories (.ofList (c :: before)) = .ok files := by
        rw [Tree.makeDirectories, habsolute]
        exact makeAll_of_follow hdir hisdir
      simp only [hmake]

/-! ## §2 Handles and calls -/

/-- A call of an operation of a backend. -/
inductive ItemCall where
  /-- Looks up a key. -/
  | get (key : String)
  /-- Puts a string under a key. -/
  | set (key value : String)
  /-- Drops a key. -/
  | remove (key : String)
  /-- Lists the keys. -/
  | keys
  deriving DecidableEq

/-- What a call gives. -/
inductive ItemAnswer where
  /-- Nothing but that it is done. -/
  | done
  /-- The string under a key, if there is one. -/
  | item (value : Option String)
  /-- Keys. -/
  | keys (keys : List String)
  deriving DecidableEq

/-- Makes a call on a backend. -/
def ItemCall.perform {σ : Type} (b : Backend σ) : ItemCall → Action Failure σ ItemAnswer
  | get key => do return .item (← b.getItem key)
  | set key value => do
    b.setItem key value
    return .done
  | remove key => do
    b.removeItem key
    return .done
  | keys => do return .keys (← b.keys)

/-- Whether a call writes. -/
def ItemCall.isWrite : ItemCall → Bool
  | set _ _ | remove _ => true
  | get _ | keys => false

/-- Files, and the handles that have been opened on one of them, the oldest first. -/
structure World where
  /-- The files. -/
  files : Tree
  /-- The handles. -/
  handles : List (Backend Tree)

/-- What happens to a store file. -/
inductive Event where
  /-- Another handle is opened. -/
  | opens
  /-- A call is made through a handle. -/
  | calls (handle : Nat) (call : ItemCall)
  deriving DecidableEq

namespace Event

/-- What happens in the world; a call through a handle that is not open fails. -/
def perform (path : String) : Event → Action Failure World ItemAnswer
  | opens => fun w =>
    match prepare path w.files with
    | .ok _ files => .ok .done ⟨files, w.handles ++ [Backend.atPath path]⟩
    | .error e files => .error e { w with files := files }
  | calls handle call => fun w =>
    match w.handles[handle]? with
    | none => .error (.other "no such handle") w
    | some b =>
      match call.perform b w.files with
      | .ok a files => .ok a { w with files := files }
      | .error e files => .error e { w with files := files }

/-- What happens to items in memory. -/
def onItems : Event → Action Failure Items ItemAnswer
  | opens => pure .done
  | calls _ call => call.perform Backend.memory

/-- Whether an event writes. -/
def isWrite : Event → Bool
  | opens => false
  | calls _ call => call.isWrite

/-- Whether every call of a list of events is made through one of the handles opened before it, when
some are open already. -/
def inOrder : Nat → List Event → Bool
  | _, [] => true
  | n, opens :: es => inOrder (n + 1) es
  | n, calls handle _ :: es => decide (handle < n) && inOrder n es

end Event

/-- The file at a path is missing, and can be made, or has nothing but blanks. -/
def MissingOrBlank (files : Tree) (path : String) : Prop :=
  holdsFile files path = true ∧ (openFile files path = .ok none ∨
    ∃ text : String, isBlankText text = true ∧ openFile files path = .ok (some text.toUTF8))

/-! ## §3 One event -/

theorem ItemCall.perform_simulates {σ : Type} {b : Backend σ} {items? : σ → Option Items}
    (hb : b.Keeps items?) (call : ItemCall) :
    Simulates items? (call.perform b) (call.perform Backend.memory) := by
  cases call with
  | get key => exact (hb.getItem key).bind fun _ => .pure items? _
  | set key value => exact (hb.setItem key value).bind fun _ => .pure items? _
  | remove key => exact (hb.removeItem key).bind fun _ => .pure items? _
  | keys => exact hb.keys.bind fun _ => .pure items? _

theorem ItemCall.perform_memory (call : ItemCall) (d : Items) :
    ∃ a d', call.perform Backend.memory d = .ok a d' := by
  cases call <;> exact ⟨_, _, rfl⟩

section Content

variable {path : String} {files : Tree}

/-- What stands in a file that has items. -/
theorem exists_file_of_treeItems? {d : Items} (h : treeItems? path files = some d) :
    holdsFile files path = true ∧
      ∃ file, openFile files path = .ok file ∧ decodeItems (file.getD .empty) = .ok d := by
  unfold treeItems? at h
  split at h
  · rename_i hholds
    split at h
    · rename_i file hopen
      refine ⟨hholds, file, hopen, ?_⟩
      unfold FileState.items? at h
      cases hdecode : decodeItems (file.getD .empty) with
      | ok d' =>
        rw [hdecode] at h
        exact congrArg _ (Option.some.inj h)
      | error e =>
        rw [hdecode] at h
        exact absurd h (by simp [Except.toOption])
    · exact absurd h (by simp)
  · exact absurd h (by simp)

/-- What an operation on a file leaves is there afterwards. -/
theorem onFile_eq_ok {α : Type} {act : Action Failure FileState α} {file : FileState} {a : α}
    {content : ByteArray} (hholds : holdsFile files path = true)
    (hopen : openFile files path = .ok file) (hact : act file = .ok a (some content)) :
    ∃ files', onFile path act files = .ok a files' ∧
      openFile files' path = .ok (some content) := by
  refine ⟨closeFile files path (some content), ?_, (openFile_closeFile hholds content).1⟩
  simp only [onFile, hopen, hact]

/-- A call through a handle leaves a content: the object of some items if it writes, and otherwise what
there was. -/
theorem ItemCall.exists_content {d : Items} (h : treeItems? path files = some d) (call : ItemCall) :
    ∃ a files' content, call.perform (Backend.atPath path) files = .ok a files' ∧
      openFile files' path = .ok (some content) ∧
      (call.isWrite = true → ∃ d', content = encodeItems d') ∧
      (call.isWrite = false → ∀ content', openFile files path = .ok (some content') →
        content = content') := by
  obtain ⟨hholds, file, hopen, hdecode⟩ := exists_file_of_treeItems? h
  have hsame (content' : ByteArray) (h : openFile files path = .ok (some content')) :
      file.getD .empty = content' := by
    obtain rfl : file = some content' := Except.ok.inj (hopen.symm.trans h)
    rfl
  have hread {α : Type} (f : Items → α) :
      readingItems f file = .ok (f d) (some (file.getD .empty)) := by
    simp only [readingItems, hdecode]
  have hchange (f : Items → Items) :
      changingItems f file = .ok () (some (encodeItems (f d))) := by
    simp only [changingItems, hdecode]
  -- A call that reads puts the content back that it found; one that writes puts the changed items.
  cases call with
  | get key =>
    obtain ⟨files', hfiles', hcontent⟩ := onFile_eq_ok hholds hopen (hread (·.get? key))
    exact ⟨_, files', _, bind_of_ok hfiles', hcontent, fun hw => absurd hw (by simp [isWrite]),
      fun _ => hsame⟩
  | keys =>
    obtain ⟨files', hfiles', hcontent⟩ := onFile_eq_ok hholds hopen (hread (·.keys))
    exact ⟨_, files', _, bind_of_ok hfiles', hcontent, fun hw => absurd hw (by simp [isWrite]),
      fun _ => hsame⟩
  | set key value =>
    obtain ⟨files', hfiles', hcontent⟩ := onFile_eq_ok hholds hopen (hchange (·.insert key value))
    exact ⟨_, files', _, bind_of_ok hfiles', hcontent, fun _ => ⟨_, rfl⟩,
      fun hw => absurd hw (by simp [isWrite])⟩
  | remove key =>
    obtain ⟨files', hfiles', hcontent⟩ := onFile_eq_ok hholds hopen (hchange (·.erase key))
    exact ⟨_, files', _, bind_of_ok hfiles', hcontent, fun _ => ⟨_, rfl⟩,
      fun hw => absurd hw (by simp [isWrite])⟩

end Content

/-- Handles on one path, and the items of its file; once something was written, the file is an object of
items. -/
structure World.Holds (path : String) (w : World) (d : Items) (written : Bool) : Prop where
  /-- Every handle is the backend at the path. -/
  handles : ∀ b ∈ w.handles, b = Backend.atPath path
  /-- The file stands for the items. -/
  items : treeItems? path w.files = some d
  /-- Once something was written, the file is an object of items. -/
  content : written = true → ∃ d', openFile w.files path = .ok (some (encodeItems d'))

theorem World.Holds.openFile_eq {path : String} {w : World} {d : Items} (h : w.Holds path d true) :
    openFile w.files path = .ok (some (encodeItems d)) := by
  obtain ⟨d', hcontent⟩ := h.content rfl
  obtain ⟨-, file, hopen, hdecode⟩ := exists_file_of_treeItems? h.items
  obtain rfl : some (encodeItems d') = file := Except.ok.inj (hcontent.symm.trans hopen)
  rw [Option.getD_some, decodeItems_encodeItems] at hdecode
  rw [hcontent, Except.ok.inj hdecode]

/-- Opening another handle changes no file. -/
theorem World.Holds.opens {path : String} {w : World} {d : Items} {written : Bool}
    (h : w.Holds path d written) :
    Event.opens.perform path w = .ok .done ⟨w.files, w.handles ++ [Backend.atPath path]⟩ ∧
      World.Holds path ⟨w.files, w.handles ++ [Backend.atPath path]⟩ d written := by
  have hprepare := prepare_of_holdsFile (exists_file_of_treeItems? h.items).1
  refine ⟨?_, ⟨fun b hb => ?_, h.items, h.content⟩⟩
  · simp only [Event.perform, hprepare]
  · rcases List.mem_append.1 hb with hb | hb
    · exact h.handles b hb
    · exact List.mem_singleton.1 hb

/-- A call through an open handle answers as on items in memory. -/
theorem World.Holds.calls {path : String} {w : World} {d : Items} {written : Bool}
    (h : w.Holds path d written) {handle : Nat} (hhandle : handle < w.handles.length)
    (call : ItemCall) :
    ∃ a files' d', (Event.calls handle call).perform path w = .ok a { w with files := files' } ∧
      call.perform Backend.memory d = .ok a d' ∧
      World.Holds path { w with files := files' } d' (written || call.isWrite) := by
  obtain ⟨a, d', hmemory⟩ := call.perform_memory d
  obtain ⟨files', hfiles', hitems⟩ :=
    call.perform_simulates (Backend.atPath_keeps path) w.files d h.items
  obtain ⟨a', files'', content, hperform, hcontent, hwrite, hread⟩ := call.exists_content h.items
  rw [hmemory] at hfiles' hitems
  -- One says which items the call leaves, the other what is in the file; it is one call.
  obtain ⟨rfl, rfl⟩ : a = a' ∧ files' = files'' := by
    simpa [withState] using hfiles'.symm.trans hperform
  have hb : w.handles[handle]? = some (Backend.atPath path) := by
    rw [List.getElem?_eq_getElem hhandle, h.handles _ (List.getElem_mem hhandle)]
  refine ⟨a, files', d', ?_, hmemory, h.handles, hitems, fun hwritten => ?_⟩
  · simp only [Event.perform, hb, hperform]
  · cases hw : call.isWrite with
    | true =>
      obtain ⟨d'', rfl⟩ := hwrite hw
      exact ⟨d'', hcontent⟩
    | false =>
      rw [hw, Bool.or_false] at hwritten
      obtain ⟨d'', hbefore⟩ := h.content hwritten
      exact ⟨d'', hread hw _ hbefore ▸ hcontent⟩

/-! ## §4 Runs -/

/-- A run of events, when the file stands for some items. -/
theorem World.Holds.run {path : String} {w : World} {d : Items} {written : Bool}
    (h : w.Holds path d written) {es : List Event}
    (hes : Event.inOrder w.handles.length es = true) :
    ∃ answers w' d', es.mapM (Event.perform path) w = .ok answers w' ∧
      es.mapM Event.onItems d = .ok answers d' ∧
      w'.Holds path d' (written || es.any Event.isWrite) := by
  induction es generalizing w d written with
  | nil => exact ⟨[], w, d, rfl, rfl, by simpa using h⟩
  | cons e es ih =>
    cases e with
    | opens =>
      obtain ⟨hopens, hholds⟩ := h.opens
      obtain ⟨answers, w', d', hrun, hitems, hholds'⟩ := ih hholds (by simpa [Event.inOrder] using hes)
      exact ⟨.done :: answers, w', d', mapM_cons_eq_ok.2 ⟨_, _, _, hopens, hrun, rfl⟩,
        mapM_cons_eq_ok.2 ⟨_, _, _, rfl, hitems, rfl⟩, by simpa [Event.isWrite] using hholds'⟩
    | calls handle call =>
      rw [Event.inOrder, Bool.and_eq_true, decide_eq_true_eq] at hes
      obtain ⟨a, files', d₁, hcall, hmemory, hholds⟩ := h.calls hes.1 call
      obtain ⟨answers, w', d', hrun, hitems, hholds'⟩ := ih hholds hes.2
      refine ⟨a :: answers, w', d', mapM_cons_eq_ok.2 ⟨_, _, _, hcall, hrun, rfl⟩,
        mapM_cons_eq_ok.2 ⟨_, _, _, hmemory, hitems, rfl⟩, ?_⟩
      rwa [Bool.or_assoc] at hholds'

theorem MissingOrBlank.treeItems? {files : Tree} {path : String} (h : MissingOrBlank files path) :
    treeItems? path files = some .empty := by
  obtain ⟨hholds, hopen | ⟨text, hblank, hopen⟩⟩ := h
  · have hempty : decodeItems .empty = .ok .empty := @decodeItems_blank "" rfl
    simp only [Store.treeItems?, if_pos hholds, hopen, FileState.items?, Option.getD_none, hempty]
    rfl
  · simp only [Store.treeItems?, if_pos hholds, hopen, FileState.items?, Option.getD_some,
      decodeItems_blank hblank]
    rfl

/-- **Handles on one file are one map.**  Let opening a handle make the directory of a path, where then
the file is missing or blank.  Then all events, where calls are made through handles that have been
opened, succeed and answer as on one map in memory that starts empty.  Once anything was written, so
in particular after every write, the file is the object of exactly the items of that map. -/
theorem handles_refine_memory {files files' : Tree} {path : String}
    (hopen : prepare path files = .ok () files') (hblank : MissingOrBlank files' path)
    {es : List Event} (hes : Event.inOrder 0 es = true) :
    ∃ answers w d, es.mapM (Event.perform path) ⟨files, []⟩ = .ok answers w ∧
      es.mapM Event.onItems Dict.empty = .ok answers d ∧
      (es.any Event.isWrite = true →
        openFile w.files path = .ok (some (Json.indentedStrings d).toUTF8) ∧
        Json.parseAsWritten? (Json.indentedStrings d) = some (Json.ofTexts d.entries)) := by
  cases es with
  | nil => exact ⟨[], _, _, rfl, rfl, by simp⟩
  | cons e es =>
    cases e with
    | calls handle call => exact absurd hes (by simp [Event.inOrder])
    | opens =>
      -- The first handle makes the directory; from there on the file stands for items.
      have hfirst : Event.opens.perform path ⟨files, []⟩ = .ok .done ⟨files', [Backend.atPath path]⟩ := by
        simp only [Event.perform, hopen, List.nil_append]
      have hholds : World.Holds path ⟨files', [Backend.atPath path]⟩ .empty false :=
        ⟨fun b hb => List.mem_singleton.1 hb, hblank.treeItems?, by simp⟩
      obtain ⟨answers, w, d, hrun, hitems, hw⟩ := hholds.run hes
      refine ⟨.done :: answers, w, d, mapM_cons_eq_ok.2 ⟨_, _, _, hfirst, hrun, rfl⟩,
        mapM_cons_eq_ok.2 ⟨_, _, _, rfl, hitems, rfl⟩, fun hwritten => ?_⟩
      have hsome : es.any Event.isWrite = true := by simpa [Event.isWrite] using hwritten
      rw [hsome, Bool.or_true] at hw
      exact ⟨hw.openFile_eq, Json.parse_indentedStrings d⟩

theorem locate_store_json : Tree.locate .empty "store.json" = .ok "store.json" := by
  have habsolute : isAbsolute "store.json" = false := by
    rw [Bool.eq_false_iff, ne_eq, isAbsolute_iff]
    decide
  rw [Tree.locate, habsolute]
  rfl

/-- Two handles on a file that is missing at first. -/
theorem handles_refine_memory_two : ∃ answers w d,
    [.opens, .calls 0 (.set "a" "1"), .opens, .calls 1 (.get "a")].mapM
        (Event.perform "store.json") ⟨.empty, []⟩ = .ok answers w ∧
      answers = [.done, .done, .done, .item (some "1")] ∧
      openFile w.files "store.json" = .ok (some (Json.indentedStrings d).toUTF8) ∧
      d.entries = [("a", "1")] := by
  have hslash : "store.json".endsWith "/" = false := by
    rw [← String.endsWith_toSlice, String.Slice.endsWith_string_eq_false_iff, String.copy_toSlice]
    decide
  have hentry : Tree.entry? .empty "store.json" = none := rfl
  have hparent : Tree.parentExists .empty "store.json" = .ok () := rfl
  have hmissing : MissingOrBlank .empty "store.json" := by
    constructor
    · simp only [holdsFile, locate_store_json, hentry, hparent, hslash]
      rfl
    · left
      simp only [openFile, locate_store_json, hentry, hparent, hslash]
      rfl
  obtain ⟨answers, w, d, hrun, hitems, hcontent⟩ :=
    @handles_refine_memory .empty .empty "store.json" rfl hmissing
      [.opens, .calls 0 (.set "a" "1"), .opens, .calls 1 (.get "a")] (by decide)
  have hmemory : [.opens, .calls 0 (.set "a" "1"), .opens, .calls 1 (.get "a")].mapM Event.onItems
      Dict.empty = .ok [.done, .done, .done, .item (some "1")] (Dict.insert .empty "a" "1") := rfl
  obtain ⟨rfl, rfl⟩ := EStateM.Result.ok.inj (hmemory.symm.trans hitems)
  exact ⟨_, w, _, hrun, rfl, (hcontent (by decide)).1, rfl⟩

end Stencil.Store
