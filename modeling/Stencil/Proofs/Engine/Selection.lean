import Stencil.Proofs.Engine.Choices
import Stencil.Proofs.Paths

/-!
# Choices and the Selected Files

A choice looks at the selected files.  Once a token has asked for them, they are in the context, as one
text; what a choice sees then is what is read from that text.  A list of paths comes back as it was, but
a name with a comma or a line break in it, or with blanks at its ends, comes back as something else, and
a choice may then come out the other way.

Main statements: `render_choices` and `choice_not_independent`.
-/

namespace Stencil.Engine

open Store Template Directives Catalog
open Context (selectedFilesKey splitPaths joinPaths IsPath endsPath)

variable {σ : Type}

/-! ## §1 The context of the last directives -/

theorem writtenKeys_low {host : Host} {d : Builtin} (hd : d ∈ low host) : writtenKeys d = [] := by
  have hnames : ∀ name ∈ lowNames, sideKeys name = [] := by decide +kernel
  have hname : d.name ∈ lowNames := by
    rw [← names_low host]
    exact List.mem_map_of_mem hd
  rw [writtenKeys, resultKeys_low host d hd, hnames d.name hname]
  rfl

theorem writtenKeys_high {host : Host} {d : Builtin} (hd : d ∈ high host) : writtenKeys d = [] := by
  obtain ⟨op, -, rfl⟩ := List.mem_map.1 hd
  show sideKeys op.name = []
  cases op <;> decide

theorem get?_context_step {host : Host} {d : Builtin} (hd : d ∈ builtin host) {key : String}
    (hkey : key ∉ writtenKeys d) (r : Rendering Machine) (token : Token) :
    (r.step d token).context.get? key = r.context.get? key := by
  rw [context_step]
  refine Dict.get?_insertAll_of_ne fun field hfield heq => hkey ?_
  exact heq ▸ fields_of_writes (writes_builtin host d hd token r.context) field hfield

theorem context_step_low {host : Host} {d : Builtin} (hd : d ∈ low host) (r : Rendering Machine)
    (token : Token) : (r.step d token).context = r.context := by
  have hbuiltin : d ∈ builtin host := by
    rw [builtin_eq]
    exact List.mem_append_right _ hd
  refine Dict.ext_get? fun key => get?_context_step hbuiltin ?_ r token
  rw [writtenKeys_low hd]
  exact List.not_mem_nil

theorem worklist_low {host : Host} {d : Builtin} (hd : d ∈ low host)
    (order : List Builtin) : worklist order d = [d] := by
  rw [worklist, dependencies_low host d hd]
  rfl

/-- The last directives are evaluated in the context that is returned. -/
theorem context_of_low (host : Host) (limit : Nat) (template : String) (seed : Context) (m : Machine) :
    let r := render [] (builtin host) limit template seed m
    ∀ e ∈ r.evaluations, isEarly e.directive.name = false →
      e.directive ∈ low host ∧ e.context = r.context := by
  intro r
  let r₁ := (early host).foldl (visit (builtin host) limit) (startIn (builtin host) template seed m)
  have hr : r = (low host).foldl (visit (builtin host) limit) r₁ := by
    show render [] (builtin host) limit template seed m = _
    rw [render_nil, renderIn_eq, ← List.foldl_append]
    exact congrArg (List.foldl _ _) (builtin_eq_early host)
  -- Before the last directives only early ones are evaluated.
  have hearly : ∀ e ∈ r₁.evaluations, isEarly e.directive.name = true := by
    refine visits_induction (P := fun r => ∀ e ∈ r.evaluations, isEarly e.directive.name = true)
      (fun d hd d' hd' r token nested h _ e he => ?_) limit (by simp [startIn, Rendering.evaluations])
    rcases mem_evaluations_step.1 he with he | rfl
    · exact h e he
    · exact (worklist_early hd d' hd').1
  -- From then on the context stays as it is.
  have hlate : r.context = r₁.context ∧ ∀ e ∈ r.evaluations, e ∈ r₁.evaluations ∨
      e.directive ∈ low host ∧ e.context = r₁.context := by
    rw [hr]
    refine visits_induction (P := fun r => r.context = r₁.context ∧ ∀ e ∈ r.evaluations,
      e ∈ r₁.evaluations ∨ e.directive ∈ low host ∧ e.context = r₁.context)
      (fun d hd d' hd' r token nested h _ => ?_) limit ⟨rfl, fun e he => .inl he⟩
    rw [worklist_low hd] at hd'
    obtain rfl := List.mem_singleton.1 hd'
    refine ⟨(context_step_low hd r token).trans h.1, fun e he => ?_⟩
    rcases mem_evaluations_step.1 he with he | rfl
    · exact h.2 e he
    · exact .inr ⟨hd, h.1⟩
  intro e he hname
  rcases hlate.2 e he with he | ⟨hlow, hcontext⟩
  · rw [hearly e he] at hname
    exact absurd hname (by simp)
  · exact ⟨hlow, hcontext.trans hlate.1.symm⟩

/-! ## §2 The selected files in the context -/

/-- The files that are seen as selected in a context: those it has, or else those of the desktop. -/
def selectionIn (desktop : FixedDesktop) (ctx : Context) : List String :=
  if ctx.isResolved selectedFilesKey then ctx.selectedFiles else desktop.selectedFiles

/-- A context that has selected files is asked for them. -/
theorem selectionIn_of_text? {desktop : FixedDesktop} {ctx : Context} {raw : String}
    (h : ctx.text? selectedFilesKey = some raw) : selectionIn desktop ctx = splitPaths raw := by
  have hresolved : ctx.isResolved selectedFilesKey = true := by
    rw [isResolved_iff (by decide)]
    intro hnone
    rw [Context.text?, hnone] at h
    exact absurd h (by simp)
  rw [selectionIn, if_pos hresolved, Context.selectedFiles, h]

theorem selectionIn_congr {desktop : FixedDesktop} {ctx ctx' : Context}
    (hget : ctx'.get? selectedFilesKey = ctx.get? selectedFilesKey) :
    selectionIn desktop ctx' = selectionIn desktop ctx := by
  rw [selectionIn, selectionIn, Context.isResolved, Context.isResolved, Context.selectedFiles,
    Context.selectedFiles, Context.text?, Context.text?, hget]

/-- Whether the directive of a name asks for the selected files, and writes them down. -/
def asksForFiles (name : String) : Bool :=
  name == "selectedFiles" || name == "selectedFileContents"

/-- The selected files as they are seen after some evaluations: as they are provided, or as they are
read from the text of the context once some directive has asked for them. -/
def seenFiles (provided : List String) (es : List (Evaluation Machine)) : List String :=
  if es.any (asksForFiles ·.directive.name) then splitPaths (joinPaths provided) else provided

/-- Whether the context of a rendering has the selected files as they are seen after its evaluations,
and has none before some directive has asked for them. -/
def HasSeen (provided : List String) (r : Rendering Machine) : Prop :=
  if r.evaluations.any (asksForFiles ·.directive.name) then
    ∃ raw, r.context.get? selectedFilesKey = some (.text raw) ∧
      splitPaths raw = splitPaths (joinPaths provided)
  else r.context.get? selectedFilesKey = none

/-- Only these directives write the selected files. -/
theorem asksForFiles_of_mem_writtenKeys {host : Host} {d : Builtin} (hd : d ∈ builtin host)
    (hkey : selectedFilesKey ∈ writtenKeys d) : asksForFiles d.name = true := by
  rw [builtin_eq, List.mem_append, List.mem_append] at hd
  rcases hd with (hd | hd) | hd
  · rw [writtenKeys_high hd] at hkey
    exact absurd hkey List.not_mem_nil
  · -- What is looked up differs from host to host, but not the keys.
    have hkeys : ((informational host).map fun d => (d.name, writtenKeys d)) =
        (informational (stillHost default)).map fun d => (d.name, writtenKeys d) := rfl
    have hstill : ∀ p ∈ (informational (stillHost default)).map fun d => (d.name, writtenKeys d),
        selectedFilesKey ∈ p.2 → asksForFiles p.1 = true := by
      decide +kernel
    exact hstill (d.name, writtenKeys d) (hkeys ▸ List.mem_map_of_mem hd) hkey
  · rw [writtenKeys_low hd] at hkey
    exact absurd hkey List.not_mem_nil

/-- These are the directives that ask. -/
theorem eq_of_asksForFiles {host : Host} {d : Builtin} (hd : d ∈ builtin host)
    (hasks : asksForFiles d.name = true) : d = selectedFiles host ∨ d = selectedFileContents host := by
  have hmem : selectedFiles host ∈ builtin host ∧ selectedFileContents host ∈ builtin host :=
    ⟨mem_builtin_of_informational (by simp [informational, desktop]),
      mem_builtin_of_informational (by simp [informational, desktop])⟩
  rw [asksForFiles, Bool.or_eq_true, beq_iff_eq, beq_iff_eq] at hasks
  exact hasks.imp (fun hname => eq_of_name hd hmem.1 hname) fun hname => eq_of_name hd hmem.2 hname

/-- The texts of files, each under its path, as far as they can be put in. -/
def contentsOf (files : Files.Tree) (paths : List String) : String :=
  "\n\n".intercalate (paths.filterMap fun path =>
    (inlineText? files path).map fun text => path ++ ":\n" ++ text)

section Asking

variable {host : Host} {ctx : Context} {m : Machine} {paths : List String}
  (hpaths : selection host ctx m = .ok paths m) (token : Token)
include hpaths

theorem apply_selectedFiles : (selectedFiles host).apply token ctx m =
    .ok (.keyed selectedFilesKey (joinPaths paths)) m := by
  show (selection host ctx >>= _) m = _
  rw [bind_of_ok hpaths]
  rfl

theorem apply_selectedFileContents : (selectedFileContents host).apply token ctx m =
    .ok ((Outcome.keyed "selectedFileContents" (contentsOf m.files paths)).withField selectedFilesKey
      (.text (joinPaths paths))) m := by
  show (selection host ctx >>= _) m = _
  rw [bind_of_ok hpaths]
  rfl

/-- A directive that asks for the files writes down what it gets to see. -/
theorem get?_of_asksForFiles {d : Builtin} (hd : d ∈ builtin host)
    (hasks : asksForFiles d.name = true) :
    (Context.merge ctx (⟨d, token, ctx, m⟩ : Evaluation Machine).outcome.fields).get? selectedFilesKey =
      some (.text (joinPaths paths)) := by
  rcases eq_of_asksForFiles hd hasks with rfl | rfl
  · rw [outcome_of_apply (apply_selectedFiles hpaths token)]
    show (ctx.insert selectedFilesKey _).get? selectedFilesKey = _
    rw [Dict.get?_insert, if_pos rfl]
  · rw [outcome_of_apply (apply_selectedFileContents hpaths token)]
    show ((ctx.insert _ _).insert selectedFilesKey _).get? selectedFilesKey = _
    rw [Dict.get?_insert, if_pos rfl]

end Asking

section Host

variable {host : Host} {desktop : FixedDesktop} (hdesktop : host.desktop = .fixed desktop)
include hdesktop

theorem selection_fixed (ctx : Context) (m : Machine) :
    selection host ctx m = .ok (selectionIn desktop ctx) m := by
  rw [selection, selectionIn]
  split
  · rfl
  · rw [asking, Action.mapError, Desktop.selectedFiles, hdesktop]
    rfl

omit hdesktop in
/-- Files that were seen are seen as selected. -/
theorem HasSeen.selectionIn {r : Rendering Machine} (h : HasSeen desktop.selectedFiles r) :
    selectionIn desktop r.context = seenFiles desktop.selectedFiles r.evaluations := by
  unfold HasSeen at h
  rw [seenFiles]
  split at h
  · rename_i hasked
    obtain ⟨raw, hget, hsplit⟩ := h
    rw [selectionIn_of_text? (congrArg (Option.map _) hget), if_pos hasked, ← hsplit]
    rfl
  · rename_i hasked
    have hresolved : ¬Context.isResolved r.context selectedFilesKey = true := by
      rw [isResolved_iff (by decide), h]
      simp
    rw [Engine.selectionIn, if_neg hresolved, if_neg hasked]

/-- A rendering that has seen the files has seen them after an evaluation. -/
theorem HasSeen.step {r : Rendering Machine} (h : HasSeen desktop.selectedFiles r) {d : Builtin}
    (hd : d ∈ builtin host) (token : Token) : HasSeen desktop.selectedFiles (r.step d token) := by
  rw [HasSeen, evaluations_step, List.any_append, List.any_cons, List.any_nil, Bool.or_false]
  cases hasks : asksForFiles d.name with
  | true =>
    rw [Bool.or_true, if_pos rfl]
    refine ⟨joinPaths (seenFiles desktop.selectedFiles r.evaluations), ?_, ?_⟩
    · rw [← h.selectionIn]
      exact get?_of_asksForFiles (selection_fixed hdesktop r.context r.state) token hd hasks
    · -- What is read is written and read again as the same paths.
      rw [seenFiles]
      split
      · rw [Context.splitPaths_joinPaths_splitPaths]
      · rfl
  | false =>
    have hkey : selectedFilesKey ∉ writtenKeys d := by
      intro hkey
      rw [asksForFiles_of_mem_writtenKeys hd hkey] at hasks
      exact absurd hasks (by simp)
    rw [Bool.or_false, get?_context_step hd hkey]
    exact h

/-- The files are seen throughout a rendering whose seed has none. -/
theorem hasSeen_render (limit : Nat) (template : String) {seed : Context} (m : Machine)
    (hseed : seed.get? selectedFilesKey = none) :
    HasSeen desktop.selectedFiles (render [] (builtin host) limit template seed m) := by
  rw [render_nil]
  exact renderIn_induction (P := HasSeen desktop.selectedFiles) hseed
    fun d hd r token _ h _ => h.step hdesktop hd token

/-- A choice gives the half of its body that the files it sees select. -/
theorem outcome_of_choice (limit : Nat) (template : String) {seed : Context} (m : Machine)
    (hseed : seed.get? selectedFilesKey = none) {choice : Flow.Choice}
    (hchoice : choice ∈ Flow.choices) :
    let r := render [] (builtin host) limit template seed m
    ∀ e ∈ r.evaluations, e.directive.name = choice.name → e.outcome.text =
      Flow.half (choice.accepts (seenFiles desktop.selectedFiles r.evaluations)) e.token.bodyText := by
  intro r e he hname
  have hflow := flow_mem_low host hchoice
  have hearly : isEarly e.directive.name = false := by
    rw [hname]
    exact isEarly_of_mem_low hflow
  obtain ⟨hlow, hcontext⟩ := context_of_low host limit template seed m e he hearly
  -- It is evaluated in the context that is returned, which has the files.
  have hseen := selection_fixed hdesktop e.context e.state
  rw [hcontext, (hasSeen_render hdesktop limit template m hseed).selectionIn, ← hcontext] at hseen
  obtain ⟨d, token, ctx, s⟩ := e
  obtain rfl : d = flow host choice := by
    have hmem {d : Builtin} (hd : d ∈ low host) : d ∈ builtin host := by
      rw [builtin_eq]
      exact List.mem_append_right _ hd
    exact eq_of_name (hmem hlow) (hmem hflow) hname
  obtain ⟨paths, m', hpaths, htext⟩ := outcome_flow host choice token ctx s
  rw [selectionOrNone, hseen] at hpaths
  cases hpaths
  exact htext

end Host

/-! ## §3 The branch that a choice puts in -/

/-- Whether a token has two branches as its body, texts without braces and the first without a colon. -/
structure HasBranches (t : Token) (yes no : String) : Prop where
  body : t.body = some (yes ++ ":" ++ no)
  braceFree : BraceFree yes.toList ∧ BraceFree no.toList
  noColon : ':' ∉ yes.toList

theorem HasBranches.half_eq {t : Token} {yes no : String} (h : HasBranches t yes no) (accepted : Bool) :
    Flow.half accepted t.bodyText = if accepted then yes else no := by
  rw [Token.bodyText, h.body]
  exact (Flow.half_eq_iff h.braceFree.1 no accepted).2 h.noColon

/-- The branch that a choice puts in depends on the files that are seen: those that are provided, or
what is read from their text in the context once a token has asked for them.  If every one of them is
the path that is read from its text, it makes no difference whether one has. -/
theorem render_choices (host : Host) {desktop : FixedDesktop} (hdesktop : host.desktop = .fixed desktop)
    (limit : Nat) (template : String) {seed : Context} (m : Machine)
    (hseed : seed.get? selectedFilesKey = none) {choice : Flow.Choice}
    (hchoice : choice ∈ Flow.choices) :
    let r := render [] (builtin host) limit template seed m
    let seen := seenFiles desktop.selectedFiles r.evaluations
    let branch := fun yes no : String => if choice.accepts seen then yes else no
    ((∀ path ∈ desktop.selectedFiles, IsPath path) → seen = desktop.selectedFiles) ∧
      (∀ e ∈ r.evaluations, e.directive.name = choice.name → ∀ yes no, HasBranches e.token yes no →
        e.outcome.text = branch yes no) ∧
      (BraceClean template → (∀ key s, Context.text? seed key = some s → BraceFree s.toList) →
        (tokens template).length ≤ limit → (∀ e ∈ r.evaluations, BraceFree e.outcome.text.toList) →
        ∃ value : Token → String,
          Patched 0 template.toList ((replacedTokens (isKnown (builtin host)) template).map fun t =>
            ⟨t.span, value t⟩) r.text.toList ∧
          ∀ t ∈ replacedTokens (isKnown (builtin host)) template, t.name = choice.name →
            ∀ yes no, HasBranches t yes no → value t = branch yes no) := by
  intro r seen branch
  have hbranch : ∀ e ∈ r.evaluations, e.directive.name = choice.name → ∀ yes no,
      HasBranches e.token yes no → e.outcome.text = branch yes no := by
    intro e he hname yes no hbranches
    rw [outcome_of_choice hdesktop limit template m hseed hchoice e he hname]
    exact hbranches.half_eq _
  refine ⟨fun hpaths => ?_, hbranch, fun hclean hfree hlimit hplain => ?_⟩
  · show seenFiles desktop.selectedFiles r.evaluations = desktop.selectedFiles
    rw [seenFiles]
    split
    · exact Context.splitPaths_joinPaths hpaths
    · rfl
  · have hearly : NoEarlyFields (evaluationOrder [] (builtin host)) limit
        (startIn (evaluationOrder [] (builtin host)) template seed m) := by
      rw [evaluationOrder_nil]
      exact noEarlyFields_builtin host limit rfl
    obtain ⟨account, hreplaced, hpatched⟩ := exists_account hclean hfree hlimit hearly hplain
    refine ⟨account.value, hpatched, fun t ht hname yes no hbranches => ?_⟩
    have htoken := mem_tokens_of_mem_replaced ht
    have hbody : ∀ body, t.body = some body → BraceFree body.toList := by
      intro body hbody
      obtain rfl := Option.some.inj (hbranches.body.symm.trans hbody)
      have hcolon : BraceFree ":".toList := by decide
      rw [String.toList_append, String.toList_append, braceFree_append, braceFree_append]
      exact ⟨⟨hbranches.braceFree.1, hcolon⟩, hbranches.braceFree.2⟩
    cases horigin : account.origin t with
    | none =>
      have hsome := (hreplaced t ht).1
      rw [horigin] at hsome
      exact absurd hsome (by simp)
    | some o =>
      cases o with
      | seed =>
        -- The seed never has a value for a choice.
        have hseeded := (account.seeded t htoken _).2 ⟨horigin, rfl⟩
        have hlow := flow_mem_low host hchoice
        have hflow : Directives.flow host choice ∈ builtin host := by
          rw [builtin_eq]
          exact List.mem_append_right _ hlow
        have hnone : seedText? (evaluationOrder [] (builtin host)) seed t.name = none := by
          rw [evaluationOrder_nil, hname]
          exact seedText?_of_resultKeys hflow (resultKeys_low host _ hlow) seed
        exact absurd (hseeded.symm.trans hnone) (by simp)
      | evaluation i =>
        obtain ⟨e, he, hdirective, -, -, hanswer⟩ := account.evaluated t htoken i horigin
        have hsame := account.plain t htoken hbody i e horigin he
        rw [← text_outcome_eq_iff.2 hanswer]
        refine hbranch e (List.mem_of_getElem? he) (hdirective.trans hname) yes no
          ⟨?_, hbranches.braceFree, hbranches.noColon⟩
        rw [hsame]
        exact hbranches.body

/-- Two selected files, and a choice after a token that asks for them. -/
theorem render_choices_pictures :
    let desktop := { (default : FixedDesktop) with selectedFiles := ["a.png", "notes.txt"] }
    let host := stillHost desktop
    let template := "{{selectedFiles}} {{images:Y:N}}"
    let r := render [] (builtin host) 2 template Dict.empty (stillMachine Dict.empty)
    seenFiles desktop.selectedFiles r.evaluations = desktop.selectedFiles ∧
      ∃ value : Token → String,
        Patched 0 template.toList ((replacedTokens (isKnown (builtin host)) template).map fun t =>
          ⟨t.span, value t⟩) r.text.toList ∧
        ∀ t ∈ replacedTokens (isKnown (builtin host)) template, t.name = "images" →
          ∀ yes no, HasBranches t yes no → value t =
            if Flow.categories[0].accepts (seenFiles desktop.selectedFiles r.evaluations) then yes
            else no := by
  intro desktop host template r
  have himages : Flow.categories[0] ∈ Flow.choices := by decide +kernel
  have hpaths : ∀ path ∈ desktop.selectedFiles, IsPath path :=
    List.forall_mem_cons.2 ⟨⟨by decide, by decide, by simp [endsPath]⟩,
      List.forall_mem_singleton.2 ⟨by decide, by decide, by simp [endsPath]⟩⟩
  have hseed : ∀ key s, Context.text? Dict.empty key = some s → BraceFree s.toList :=
    fun key s hs => absurd hs (by simp [Context.text?, Dict.get?, Dict.empty])
  have hfree : ∀ e ∈ r.evaluations, BraceFree e.outcome.text.toList := by decide +kernel
  obtain ⟨hseen, -, htext⟩ := render_choices host rfl 2 template (stillMachine Dict.empty)
    (rfl : Dict.empty.get? selectedFilesKey = none) himages
  exact ⟨hseen hpaths, htext (by decide +kernel) hseed (by decide +kernel) hfree⟩

/-- A comma in the name of a selected file. -/
theorem choice_not_independent :
    let desktop := { (default : FixedDesktop) with selectedFiles := ["notes.png,v2"] }
    let order := builtin (stillHost desktop)
    let m := stillMachine Dict.empty
    Flow.categories[0].name = "images" ∧ Flow.categories[0] ∈ Flow.choices ∧
      (render [] order 2 "{{images:Y:N}}" Dict.empty m).text = "N" ∧
      (render [] order 2 "{{selectedFiles}} {{images:Y:N}}" Dict.empty m).text =
        "notes.png,v2 Y" := by
  intro desktop order m
  refine ⟨rfl, by decide +kernel, ?_, ?_⟩
  · decide +kernel
  · decide +kernel

end Stencil.Engine
