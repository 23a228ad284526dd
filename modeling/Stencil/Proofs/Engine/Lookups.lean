import Stencil.Proofs.Engine.Selection

/-!
# Looking Something Up

Most directives with a result key look something up on the desktop and on the machine.  For a token
without arguments such a directive either finds nothing, or writes the text it finds under its key.
What it finds stays the same as long as nothing changes there, whatever else has come into the context;
only those that ask for the selected files depend on what the context has of these.

Main statement: `exists_isLookup`.
-/

namespace Stencil.Engine

open Template Directives Catalog
open Context (selectedFilesKey inputKey joinPaths splitPaths)

/-! ## §1 The directives that look something up -/

/-- The names of the directives that look up a place. -/
def locatingNames : List String := ["location", "currentWeather", "weekWeather"]

/-- The directives with a result key that look something up on the desktop and on the machine. -/
def lookups (host : Host) : List Builtin :=
  desktop host ++ (SystemValue.all.filter (!·.keys.isEmpty)).map (fun value => value.directive host) ++
    calendar

/-- These are all directives with a result key but for those that look up a place. -/
theorem mem_lookups {host : Host} {d : Builtin} (hd : d ∈ builtin host) (hkeys : d.resultKeys ≠ [])
    (hname : d.name ∉ locatingNames) : d ∈ lookups host := by
  rw [builtin_eq, List.mem_append, List.mem_append] at hd
  rcases hd with (hd | hd) | hd
  · obtain ⟨op, -, rfl⟩ := List.mem_map.1 hd
    exact absurd rfl hkeys
  · simp only [informational, List.mem_append, List.mem_cons, List.not_mem_nil, or_false] at hd
    rcases hd with ((hd | hd) | hd) | rfl | rfl | rfl
    · exact List.mem_append_left _ (List.mem_append_left _ hd)
    · obtain ⟨value, hvalue, rfl⟩ := List.mem_map.1 hd
      have hkept : value ∈ SystemValue.all.filter (!·.keys.isEmpty) :=
        List.mem_filter.2 ⟨hvalue, by simpa using show value.keys ≠ [] from hkeys⟩
      exact List.mem_append_left _ (List.mem_append_right _ (List.mem_map_of_mem hkept))
    · exact List.mem_append_right _ hd
    · exact absurd (show "location" ∈ locatingNames by decide) hname
    · exact absurd (show "currentWeather" ∈ locatingNames by decide) hname
    · exact absurd (show "weekWeather" ∈ locatingNames by decide) hname
  · exact absurd (resultKeys_low host d hd) hkeys

theorem mem_builtin_of_mem_lookups {host : Host} {d : Builtin} (hd : d ∈ lookups host) :
    d ∈ builtin host := by
  refine mem_builtin_of_informational ?_
  simp only [lookups, List.mem_append] at hd
  simp only [informational, List.mem_append]
  rcases hd with (hd | hd) | hd
  · exact .inl (.inl (.inl hd))
  · obtain ⟨value, hvalue, rfl⟩ := List.mem_map.1 hd
    exact .inl (.inl (.inr (List.mem_map_of_mem (List.mem_filter.1 hvalue).1)))
  · exact .inl (.inr hd)

/-! ## §2 What a lookup gives -/

/-- What a directive puts in for a token without arguments and body. -/
def plainOutcome (d : Builtin) (ctx : Context) (m : Machine) : Outcome :=
  (⟨d, .compose d.name .none none, ctx, m⟩ : Evaluation Machine).outcome

/-- Whether there is the same to look up on another machine. -/
structure SameSources (m m' : Machine) : Prop where
  /-- The same files. -/
  files : m'.files = m.files
  /-- The same environment variables. -/
  environment : m'.environment = m.environment
  /-- The same time. -/
  now : m'.now = m.now
  /-- The same text on the clipboard. -/
  clipboard : m'.clipboard = m.clipboard

theorem SameSources.refl (m : Machine) : SameSources m m := ⟨rfl, rfl, rfl, rfl⟩

theorem SameSources.trans {m₁ m₂ m₃ : Machine} (h : SameSources m₁ m₂) (h' : SameSources m₂ m₃) :
    SameSources m₁ m₃ :=
  ⟨h'.files.trans h.files, h'.environment.trans h.environment, h'.now.trans h.now,
    h'.clipboard.trans h.clipboard⟩

/-- Whether contexts have the same application in front, where the desktop knows none. -/
def SameApplication (desktop : FixedDesktop) (ctx ctx' : Context) : Prop :=
  desktop.application = none → ctx'.get? "currentAppName" = ctx.get? "currentAppName"

/-- Whether a directive only looks something up, and keeps it under a key. -/
structure IsLookup (desktop : FixedDesktop) (d : Builtin) (key : String) : Prop where
  /-- The key is its primary one. -/
  primary : d.resultKeys.head? = some key
  /-- Of its token it only looks at the arguments. -/
  outcome_eq : ∀ token ctx m, token.args.isEmpty = true →
    (⟨d, token, ctx, m⟩ : Evaluation Machine).outcome = plainOutcome d ctx m
  /-- It leaves what is looked up as it is. -/
  sources : ∀ token ctx m, token.args.isEmpty = true →
    SameSources m (⟨d, token, ctx, m⟩ : Evaluation Machine).after
  /-- Where the key is not resolved, it finds nothing, or writes what it finds under the key. -/
  written : ∀ ctx m, ctx.isResolved key = false → plainOutcome d ctx m = .empty ∨
    ∃ rest, (plainOutcome d ctx m).fields = (key, .text (plainOutcome d ctx m).text) :: rest ∧
      (∀ field ∈ rest, field.1 ≠ key) ∧ (key = inputKey → rest = [])
  /-- Later it finds the same, or gives the text that the key has got. -/
  again : ∀ ctx ctx' m m', SameSources m m' → SameApplication desktop ctx ctx' →
    (asksForFiles d.name = true → selectionIn desktop ctx' = selectionIn desktop ctx) →
    ctx.isResolved key = false → plainOutcome d ctx' m' = plainOutcome d ctx m ∨
      ctx'.isResolved key = true ∧ (plainOutcome d ctx' m').fields = [] ∧
        ctx'.text? key = some (plainOutcome d ctx' m').text

theorem eq_none_of_isEmpty {args : Arguments} (h : args.isEmpty = true) : args = .none := by
  obtain ⟨positional, named⟩ := args
  obtain ⟨hpositional, hnamed⟩ := Bool.and_eq_true_iff.1 h
  obtain rfl : positional = [] := List.isEmpty_iff.1 hpositional
  obtain rfl : named = Dict.empty := Dict.ext (List.isEmpty_iff.1 hnamed)
  rfl

/-- The answer of an action that finds a text, which is also the value of a key, or fails. -/
def foundOr (failure : Failure) (key : String) (text? : Option String) (m : Machine) :
    EStateM.Result Failure Machine Outcome :=
  match text? with
  | some text => .ok (.keyed key text) m
  | none => .error failure m

section FoundOr

variable {e : Evaluation Machine} {failure : Failure} {key : String} {text? : Option String}
  {m' : Machine} (h : e.directive.apply e.token e.context e.state = foundOr failure key text? m')
include h

/-- Such an evaluation puts in the text as the value of the key, or nothing. -/
theorem outcome_of_foundOr : e.outcome = text?.elim .empty (.keyed key) := by
  cases text? with
  | none => exact outcome_of_error h
  | some text => exact outcome_of_apply h

theorem after_of_foundOr : e.after = m' := by
  rw [Evaluation.after, Evaluation.run, h]
  cases text? <;> rfl

end FoundOr

/-- A text that is the value of a key is in its first field, and there is no other. -/
theorem fields_elim_keyed (text? : Option String) (key : String) :
    let outcome : Outcome := text?.elim .empty (.keyed key)
    outcome = .empty ∨ ∃ rest, outcome.fields = (key, .text outcome.text) :: rest ∧
      (∀ field ∈ rest, field.1 ≠ key) ∧ (key = inputKey → rest = []) := by
  cases text? with
  | none => exact .inl rfl
  | some text => exact .inr ⟨[], rfl, by simp, fun _ => rfl⟩

/-- A directive that finds a text or not, and finds the same as long as nothing changes, looks that
up. -/
theorem isLookup_of_found {desktop : FixedDesktop} {d : Builtin} {key : String}
    (hprimary : d.resultKeys.head? = some key) (text? : Context → Machine → Option String)
    (hsame : ∀ ctx ctx' m m', SameSources m m' → SameApplication desktop ctx ctx' →
      (asksForFiles d.name = true → selectionIn desktop ctx' = selectionIn desktop ctx) →
      text? ctx' m' = text? ctx m)
    (hfound : ∀ token ctx m, token.args.isEmpty = true → ∃ failure m', SameSources m m' ∧
      d.apply token ctx m = foundOr failure key (text? ctx m) m') : IsLookup desktop d key := by
  have houtcome : ∀ token ctx m, token.args.isEmpty = true →
      (⟨d, token, ctx, m⟩ : Evaluation Machine).outcome =
        (text? ctx m).elim .empty (.keyed key) := by
    intro token ctx m hargs
    obtain ⟨failure, m', -, happly⟩ := hfound token ctx m hargs
    exact outcome_of_foundOr happly
  have hplain : ∀ ctx m, plainOutcome d ctx m = (text? ctx m).elim .empty (.keyed key) :=
    fun ctx m => houtcome _ ctx m rfl
  refine ⟨hprimary, ?_, ?_, ?_, ?_⟩
  -- What is found does not depend on the token, and finding it leaves the sources.
  · intro token ctx m hargs
    rw [houtcome token ctx m hargs, hplain ctx m]
  · intro token ctx m hargs
    obtain ⟨failure, m', hsources, happly⟩ := hfound token ctx m hargs
    rwa [after_of_foundOr happly]
  -- It is the value of the key, or there is none; and the same is found again.
  · intro ctx m _
    rw [hplain ctx m]
    exact fields_elim_keyed _ key
  · intro ctx ctx' m m' hm happ hselection _
    left
    rw [hplain ctx m, hplain ctx' m', hsame ctx ctx' m m' hm happ hselection]

/-- A directive that gives the text of its key if that is resolved, and else finds a text or not, looks
that up. -/
theorem isLookup_of_resolved {desktop : FixedDesktop} {d : Builtin} {key : String} (failure : Failure)
    (found? : Option String) (hprimary : d.resultKeys.head? = some key)
    (hknown : ∀ token ctx m text, Context.isResolved ctx key = true →
      Context.text? ctx key = some text → d.apply token ctx m = .ok (.ofText text) m)
    (hfound : ∀ token ctx m, Context.isResolved ctx key = false →
      d.apply token ctx m = foundOr failure key found? m) : IsLookup desktop d key := by
  have htext {ctx : Context} (hctx : ctx.isResolved key = true) :
      ∃ text, ctx.text? key = some text := by
    obtain ⟨v, hv⟩ := exists_of_isResolved hctx
    exact ⟨Context.valueText v, congrArg (Option.map _) hv⟩
  have houtcome {ctx : Context} (hctx : ctx.isResolved key = false) (token : Token) (m : Machine) :
      (⟨d, token, ctx, m⟩ : Evaluation Machine).outcome = found?.elim .empty (.keyed key) :=
    outcome_of_foundOr (hfound token ctx m hctx)
  refine ⟨hprimary, fun token ctx m _ => ?_, fun token ctx m _ => ?_, fun ctx m hctx => ?_,
    fun ctx ctx' m m' _ _ _ hctx => ?_⟩
  -- For every token alike, the text of the key is given or what is found.
  · cases hctx : ctx.isResolved key with
    | true =>
      obtain ⟨text, htext⟩ := htext hctx
      rw [outcome_of_apply (hknown token ctx m text hctx htext)]
      exact (outcome_of_apply (hknown _ ctx m text hctx htext)).symm
    | false => rw [plainOutcome, houtcome hctx, houtcome hctx]
  · cases hctx : ctx.isResolved key with
    | true =>
      obtain ⟨text, htext⟩ := htext hctx
      rw [after_of_apply (hknown token ctx m text hctx htext)]
      exact .refl m
    | false =>
      rw [after_of_foundOr (hfound token ctx m hctx)]
      exact .refl m
  · rw [plainOutcome, houtcome hctx]
    exact fields_elim_keyed found? key
  · -- By now the key may have got a text.
    cases hctx' : ctx'.isResolved key with
    | false =>
      left
      rw [plainOutcome, plainOutcome, houtcome hctx, houtcome hctx']
    | true =>
      right
      obtain ⟨text, htext⟩ := htext hctx'
      have hgiven : plainOutcome d ctx' m' = .ofText text :=
        outcome_of_apply (hknown _ ctx' m' text hctx' htext)
      rw [hgiven]
      exact ⟨rfl, rfl, htext⟩

/-! ## §3 On the desktop -/

/-- What is done with a feature of a fixed desktop, if it is known. -/
theorem bind_known {α β : Type} (feature : String) (a? : Option α)
    (f : α → Action Failure Machine β) (m : Machine) :
    (asking (Desktop.known feature a?) >>= f) m =
      match a? with
      | some a => f a m
      | none => .error (.desktop (.unsupported feature)) m := by
  cases a? <;> rfl

section Host

variable {host : Host} {desktop : FixedDesktop} (hdesktop : host.desktop = .fixed desktop)
include hdesktop

theorem isLookup_clipboardText : IsLookup desktop (clipboardText host) "clipboardText" := by
  refine isLookup_of_found rfl (fun _ m => m.clipboard) (fun _ _ _ _ h _ _ => h.clipboard)
    fun token ctx m _ => ?_
  -- The clipboard is read once more, whether there is a text or not.
  refine ⟨.desktop (.unsupported "clipboard"), { m with clipboardReads := m.clipboardReads + 1 },
    ⟨rfl, rfl, rfl, rfl⟩, ?_⟩
  show (asking (Desktop.clipboardText host) >>= _) m = _
  rw [Desktop.clipboardText, hdesktop]
  obtain ⟨files, environment, now, items, clipboard, reads, loginPath, exchanges, entropy, elapsed⟩ := m
  cases clipboard <;> rfl

theorem isLookup_selectedText : IsLookup desktop (selectedText host) "selectedText" := by
  have hknown : Desktop.selectedText host = Desktop.known "selected text" desktop.selectedText := by
    rw [Desktop.selectedText, hdesktop]
  refine isLookup_of_found rfl (fun _ _ => desktop.selectedText) (fun _ _ _ _ _ _ _ => rfl)
    fun token ctx m _ => ⟨.desktop (.unsupported "selected text"), m, .refl m, ?_⟩
  show (asking (Desktop.selectedText host) >>= _) m = _
  rw [hknown, bind_known]
  cases desktop.selectedText <;> rfl

theorem isLookup_selectedFiles : IsLookup desktop (selectedFiles host) selectedFilesKey := by
  refine isLookup_of_found rfl (fun ctx _ => some (joinPaths (selectionIn desktop ctx)))
    (fun _ _ _ _ _ _ h => congrArg (some ∘ joinPaths) (h rfl))
    fun token ctx m _ => ⟨.desktop (.unsupported "file selection"), m, .refl m, ?_⟩
  exact apply_selectedFiles (selection_fixed hdesktop ctx m) token

theorem plainOutcome_selectedFiles (ctx : Context) (m : Machine) :
    plainOutcome (selectedFiles host) ctx m =
      .keyed selectedFilesKey (joinPaths (selectionIn desktop ctx)) :=
  outcome_of_apply (apply_selectedFiles (selection_fixed hdesktop ctx m) _)

theorem plainOutcome_selectedFileContents (ctx : Context) (m : Machine) :
    plainOutcome (selectedFileContents host) ctx m =
      (Outcome.keyed "selectedFileContents" (contentsOf m.files (selectionIn desktop ctx))).withField
        selectedFilesKey (.text (joinPaths (selectionIn desktop ctx))) :=
  outcome_of_apply (apply_selectedFileContents (selection_fixed hdesktop ctx m) _)

theorem isLookup_selectedFileContents :
    IsLookup desktop (selectedFileContents host) "selectedFileContents" := by
  refine ⟨rfl, fun _ _ _ _ => rfl, fun token ctx m _ => ?_, fun ctx m _ => .inr ?_,
    fun ctx ctx' m m' hm _ hselection _ => .inl ?_⟩
  · rw [Evaluation.after, Evaluation.run,
      apply_selectedFileContents (selection_fixed hdesktop ctx m) token]
    exact .refl m
  · rw [plainOutcome_selectedFileContents hdesktop]
    refine ⟨[(selectedFilesKey, _)], rfl, ?_, fun h => absurd h (by decide)⟩
    intro field hfield
    rw [List.mem_singleton.1 hfield]
    show selectedFilesKey ≠ "selectedFileContents"
    decide
  · rw [plainOutcome_selectedFileContents hdesktop, plainOutcome_selectedFileContents hdesktop,
      hselection rfl, hm.files]

theorem application_fixed :
    Desktop.application host = Desktop.known "frontmost application" desktop.application := by
  rw [Desktop.application, hdesktop]

theorem run_currentApplication (token : Token) (ctx : Context) (m : Machine) :
    (⟨currentApplication host, token, ctx, m⟩ : Evaluation Machine).run =
      match desktop.application with
      | some app => (.ok ((Outcome.keyed "currentAppName" app.name).withField "currentAppPath"
          (.text app.path)), m)
      | none => (.error (.desktop (.unsupported "frontmost application")), m) := by
  have happly : (currentApplication host).apply token ctx m =
      (asking (Desktop.application host) >>= fun app => pure ((Outcome.keyed "currentAppName"
        app.name).withField "currentAppPath" (.text app.path))) m := rfl
  rw [Evaluation.run, happly, application_fixed hdesktop, bind_known]
  cases desktop.application <;> rfl

theorem plainOutcome_currentApplication (happ : desktop.application = none) (ctx : Context)
    (m : Machine) : plainOutcome (currentApplication host) ctx m = .empty := by
  rw [plainOutcome, Evaluation.outcome, Evaluation.answer, run_currentApplication hdesktop, happ]
  rfl

theorem isLookup_currentApplication :
    IsLookup desktop (currentApplication host) "currentAppName" := by
  refine ⟨rfl, fun _ _ _ _ => rfl, fun token ctx m _ => ?_, fun ctx m _ => ?_,
    fun ctx ctx' m m' _ _ _ _ => .inl ?_⟩
  · rw [Evaluation.after, run_currentApplication hdesktop]
    cases desktop.application <;> exact .refl m
  · rw [plainOutcome, Evaluation.outcome, Evaluation.answer, run_currentApplication hdesktop]
    cases desktop.application with
    | none => exact .inl rfl
    | some app =>
      refine .inr ⟨[("currentAppPath", .text app.path)], rfl, ?_, fun h => absurd h (by decide)⟩
      intro field hfield
      rw [List.mem_singleton.1 hfield]
      show "currentAppPath" ≠ "currentAppName"
      decide
  · rw [plainOutcome, plainOutcome, Evaluation.outcome, Evaluation.outcome, Evaluation.answer,
      Evaluation.answer, run_currentApplication hdesktop, run_currentApplication hdesktop]
    cases desktop.application <;> rfl

/-- The name of an application is that of the context, or that of the application in front. -/
theorem applicationName_fixed (ctx : Context) (m : Machine) :
    applicationName host ctx m =
      match ((ctx.text? "currentAppName").filter (!·.isEmpty)).or
          (desktop.application.map (·.name)) with
      | some name => .ok name m
      | none => .error (.desktop (.unsupported "frontmost application")) m := by
  rw [applicationName]
  cases (ctx.text? "currentAppName").filter (!·.isEmpty) with
  | some name => rfl
  | none =>
    show (asking (Desktop.application host) >>= fun app => pure app.name) m = _
    rw [application_fixed hdesktop, bind_known]
    cases desktop.application <;> rfl

theorem isLookup_currentUrl : IsLookup desktop (currentUrl host) "currentURL" := by
  have hknown (app : String) :
      Desktop.browserUrl host app = Desktop.known "browser URL" desktop.url := by
    rw [Desktop.browserUrl, hdesktop]
  -- Whatever application it is, a fixed desktop knows one URL.
  refine isLookup_of_found rfl (fun ctx _ => (((ctx.text? "currentAppName").filter (!·.isEmpty)).or
    (desktop.application.map (·.name))).bind fun _ => desktop.url) ?_ fun token ctx m _ => ?_
  · intro ctx ctx' m m' _ happ _
    cases hknows : desktop.application with
    | none =>
      -- Then the name is that of the context, if there is one.
      have htext : ctx'.text? "currentAppName" = ctx.text? "currentAppName" :=
        congrArg (Option.map _) (happ hknows)
      rw [htext]
    | some app =>
      cases (ctx.text? "currentAppName").filter (!·.isEmpty) <;>
        cases (ctx'.text? "currentAppName").filter (!·.isEmpty) <;> rfl
  · have happly : (currentUrl host).apply token ctx m = (applicationName host ctx >>= fun app =>
        asking (Desktop.browserUrl host app) >>= fun url => pure (.keyed "currentURL" url)) m := rfl
    have hname := applicationName_fixed hdesktop ctx m
    cases happ : ((ctx.text? "currentAppName").filter (!·.isEmpty)).or
        (desktop.application.map (·.name)) with
    | none =>
      rw [happ] at hname
      exact ⟨_, m, .refl m, happly.trans (Store.bind_of_error hname)⟩
    | some app =>
      rw [happ] at hname
      refine ⟨.desktop (.unsupported "browser URL"), m, .refl m, ?_⟩
      rw [happly, Store.bind_of_ok hname, hknown, bind_known]
      cases desktop.url <;> rfl

theorem isLookup_input : IsLookup desktop (input host) inputKey := by
  have hknown : Desktop.userInput host = Desktop.known "user input" desktop.input := by
    rw [Desktop.userInput, hdesktop]
  have happly (token : Token) (ctx : Context) (m : Machine) : (input host).apply token ctx m =
      (match (ctx.text? inputKey).filter fun _ => ctx.isResolved inputKey with
        | some text => (return .ofText text : Action Failure Machine Outcome)
        | none => do return .keyed inputKey (← asking (Desktop.userInput host))) m := rfl
  refine isLookup_of_resolved (.desktop (.unsupported "user input")) desktop.input rfl
    (fun token ctx m text hctx htext => ?_) fun token ctx m hctx => ?_
  · rw [happly, htext, hctx]
    rfl
  · have hnone : ((ctx.text? inputKey).filter fun _ => ctx.isResolved inputKey) = none := by
      rw [hctx]
      cases ctx.text? inputKey <;> rfl
    -- A value that is not resolved is passed over, and the desktop is asked.
    rw [happly, hnone]
    show (asking (Desktop.userInput host) >>= _) m = _
    rw [hknown, bind_known]
    cases desktop.input <;> rfl

end Host

theorem isLookup_seeded (desktop : FixedDesktop) {name : String} (description : String)
    (hname : name ≠ inputKey) : IsLookup desktop (seeded name description) name := by
  have happly (token : Token) (ctx : Context) (m : Machine) :
      (seeded name description).apply token ctx m =
        (match ctx.text? name with
          | some text => (return .ofText text : Action Failure Machine Outcome)
          | none => throw (Failure.unavailable (name ++ " was not supplied"))) m := rfl
  refine isLookup_of_resolved (.unavailable (name ++ " was not supplied")) none rfl
    (fun token ctx m text _ htext => ?_) fun token ctx m hctx => ?_
  · rw [happly, htext]
    rfl
  · have hnone : ctx.get? name = none := by
      by_contra hsome
      rw [(isResolved_iff hname).2 hsome] at hctx
      exact absurd hctx (by simp)
    rw [happly, Context.text?, hnone]
    rfl

theorem isLookup_needsMac (desktop : FixedDesktop) (what description key : String)
    (dependencies : List String) : IsLookup desktop
      (shared what description [key] dependencies fun _ _ => needsMac what) key :=
  isLookup_of_found rfl (fun _ _ => none) (fun _ _ _ _ _ _ _ => rfl) fun _ _ m _ =>
    ⟨.unavailable (what ++ " needs macOS"), m, .refl m, rfl⟩

/-! ## §4 On the machine -/

/-- What is told about the machine depends on its environment and its clock, unless it is random. -/
theorem exists_read (host : Host) {value : SystemValue} (hkeys : value.keys ≠ []) :
    ∃ text : Environment → Moment → Except Failure String, ∀ token m, token.args = .none →
      value.read host token m = match text m.environment m.now with
        | .ok text => .ok text m
        | .error failure => .error failure m := by
  have hexcept (result : Except Failure String) (m : Machine) :
      Action.ofExcept result m = match result with
        | .ok text => .ok text m
        | .error failure => .error failure m := by
    cases result <;> rfl
  have hformat {token : Token} (hargs : token.args = .none) (standard : String) :
      (token.args.get? "format").getD standard = standard := by
    rw [hargs]
    rfl
  cases value with
  -- Those about the time read the clock alone, in their own format if a token names none.
  | date =>
    refine ⟨fun _ now => formatNow now "date" "%B %-d, %Y", fun token m hargs => ?_⟩
    rw [← hexcept, ← hformat hargs "%B %-d, %Y"]
    rfl
  | time =>
    refine ⟨fun _ now => formatNow now "time" "%-I:%M:%S %p", fun token m hargs => ?_⟩
    rw [← hexcept, ← hformat hargs "%-I:%M:%S %p"]
    rfl
  | day => exact ⟨fun _ now => formatNow now "day" "%A", fun _ m _ =>
      hexcept (formatNow m.now "day" "%A") m⟩
  -- The others read the host or the environment.
  | user => exact ⟨fun _ _ => .ok host.identity.user, fun _ _ _ => rfl⟩
  | homeDirectory =>
    refine ⟨fun environment _ => (environment.home?).elim (.error (.unavailable "home directory")) .ok,
      fun token m _ => ?_⟩
    show (match m.environment.home? with
      | some home => (return home : Action Failure Machine String)
      | none => throw (Failure.unavailable "home directory")) m = _
    dsimp only
    cases m.environment.home? <;> rfl
  | hostname => exact ⟨fun _ _ => .ok host.identity.hostname, fun _ _ _ => rfl⟩
  | computerName => exact ⟨fun _ _ => .ok host.identity.computerName, fun _ _ _ => rfl⟩
  | uuid => exact absurd rfl hkeys
  | language => exact ⟨fun environment _ => .ok environment.language, fun _ _ _ => rfl⟩

theorem isLookup_system (host : Host) (desktop : FixedDesktop) {value : SystemValue}
    (hkeys : value.keys ≠ []) : IsLookup desktop (value.directive host) value.name := by
  obtain ⟨text, htext⟩ := exists_read host hkeys
  have hprimary : (value.directive host).resultKeys.head? = some value.name := by
    cases value with
    | uuid => exact absurd rfl hkeys
    | _ => rfl
  refine isLookup_of_found hprimary (fun _ m => (text m.environment m.now).toOption)
    (fun _ _ _ _ h _ _ => by rw [h.environment, h.now]) fun token ctx m hargs => ?_
  have hread := htext token m (eq_none_of_isEmpty hargs)
  have happly : (value.directive host).apply token ctx m = (value.read host token >>= fun text =>
      pure (if token.args.isEmpty && !value.keys.isEmpty then .keyed value.name text
        else .ofText text)) m := rfl
  have hnonempty : value.keys.isEmpty = false := by simpa using hkeys
  rw [happly]
  -- Without arguments the value is kept under its name.
  cases hresult : text m.environment m.now with
  | error failure =>
    rw [hresult] at hread
    exact ⟨failure, m, .refl m, Store.bind_of_error hread⟩
  | ok found =>
    rw [hresult] at hread
    refine ⟨.unavailable "", m, .refl m, ?_⟩
    rw [Store.bind_of_ok hread, hargs, hnonempty]
    rfl

/-! ## §5 All of them -/

/-- Every directive that looks something up does only that. -/
theorem exists_isLookup {host : Host} {desktop : FixedDesktop}
    (hdesktop : host.desktop = .fixed desktop) {d : Builtin} (hd : d ∈ lookups host) :
    ∃ key, IsLookup desktop d key := by
  simp only [lookups, Directives.desktop, List.mem_append, List.mem_cons, List.not_mem_nil,
    or_false] at hd
  rcases hd with (hd | hd) | hd
  · rcases hd with rfl | rfl | rfl | rfl | rfl | rfl | rfl | rfl | rfl | rfl | rfl
    · exact ⟨_, isLookup_clipboardText hdesktop⟩
    · exact ⟨_, isLookup_selectedText hdesktop⟩
    · exact ⟨_, isLookup_selectedFiles hdesktop⟩
    · exact ⟨_, isLookup_selectedFileContents hdesktop⟩
    · exact ⟨_, isLookup_currentApplication hdesktop⟩
    · exact ⟨_, isLookup_currentUrl hdesktop⟩
    · exact ⟨_, isLookup_needsMac desktop _ _ _ _⟩
    · exact ⟨_, isLookup_input hdesktop⟩
    all_goals exact ⟨_, isLookup_seeded desktop _ (by decide)⟩
  · obtain ⟨value, hvalue, rfl⟩ := List.mem_map.1 hd
    exact ⟨_, isLookup_system host desktop (by simpa using (List.mem_filter.1 hvalue).2)⟩
  · obtain ⟨window, -, rfl⟩ := List.mem_map.1 hd
    exact ⟨_, isLookup_needsMac desktop _ _ _ _⟩

/-- The primary key of a directive that looks something up is written by that directive only, but for
the selected files. -/
theorem eq_of_mem_writtenKeys {host : Host} {d d' : Builtin} (hd : d ∈ lookups host)
    (hd' : d' ∈ lookups host) {key : String} (hprimary : d.resultKeys.head? = some key)
    (hkey : key ∈ writtenKeys d') :
    d' = d ∨ d' = selectedFileContents host ∧ d = selectedFiles host := by
  -- What is looked up differs from host to host, but not the keys.
  have hkeys : ((lookups host).map fun d => (d.name, d.resultKeys.head?, writtenKeys d)) =
      (lookups (stillHost default)).map fun d => (d.name, d.resultKeys.head?, writtenKeys d) := rfl
  have hstill : ∀ p ∈ (lookups (stillHost default)).map fun d =>
      (d.name, d.resultKeys.head?, writtenKeys d),
      ∀ p' ∈ (lookups (stillHost default)).map fun d => (d.name, d.resultKeys.head?, writtenKeys d),
        (∀ key ∈ p.2.1, key ∈ p'.2.2 →
          p'.1 = p.1 ∨ p'.1 = "selectedFileContents" ∧ p.1 = "selectedFiles") := by
    decide +kernel
  have hmem {d : Builtin} (hd : d ∈ lookups host) : (d.name, d.resultKeys.head?, writtenKeys d) ∈
      (lookups (stillHost default)).map fun d => (d.name, d.resultKeys.head?, writtenKeys d) :=
    hkeys ▸ List.mem_map_of_mem (f := fun d : Builtin =>
      (d.name, d.resultKeys.head?, writtenKeys d)) hd
  have hsame {d d' : Builtin} (hd : d ∈ lookups host) (hd' : d' ∈ lookups host)
      (hname : d.name = d'.name) : d = d' :=
    eq_of_name (mem_builtin_of_mem_lookups hd) (mem_builtin_of_mem_lookups hd') hname
  have hfiles : selectedFiles host ∈ lookups host ∧ selectedFileContents host ∈ lookups host := by
    simp [lookups, desktop]
  rcases hstill _ (hmem hd) _ (hmem hd') key hprimary hkey with hname | ⟨hname', hname⟩
  · exact .inl (hsame hd' hd hname)
  · exact .inr ⟨hsame hd' hfiles.2 hname', hsame hd hfiles.1 hname⟩

end Stencil.Engine
