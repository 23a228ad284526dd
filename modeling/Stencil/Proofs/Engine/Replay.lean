import Stencil.Proofs.Engine.Recall

/-!
# Rendering Again

The context that is returned has the text that was found for every token.  So rendering the template
again from that context puts in the same texts without looking them up, and finds nothing where nothing
was found before.

Main statements: `render_again` and `context_not_replayed`.
-/

namespace Stencil.Engine

open Stencil.Text Template Directives Catalog
open Context (selectedFilesKey inputKey joinPaths splitPaths)

variable {α : Type} [DecidableEq α] {host : Host} {desktop : FixedDesktop}
  {cells : List (Cell (Leaf α))} {seed : Context} {m : Machine}

/-! ## §1 The second rendering -/

/-- Where nothing was found, there is nothing in the context. -/
theorem Recalled.quiet {ctx : Context} {key : String} {first : Outcome} {text : PlainText}
    (h : Recalled seed ctx key first (some text)) (hctx : ctx.isResolved key = false) :
    seed.isResolved key = false ∧ Quiet key ctx first := by
  cases h with
  | seeded _ hresolved => exact absurd (hctx.symm.trans hresolved) (by simp)
  | found _ hresolved => exact absurd (hctx.symm.trans hresolved) (by simp)
  | missing hseed _ hplace => exact ⟨hseed, (hplace text rfl).2⟩

omit [DecidableEq α] in
theorem not_quiet_of_asksForFiles (hdesktop : host.desktop = .fixed desktop) {d : Builtin}
    (hd : d ∈ builtin host) (hasks : asksForFiles d.name = true) {key : String} {ctx : Context}
    (hkey : d.resultKeys.head? = some key) (hctx : ctx.isResolved key = false) :
    ¬Quiet key ctx (plainOutcome d seed m) := by
  rintro ⟨-, hfields | ⟨hfields, hget⟩⟩
  · rcases eq_of_asksForFiles hd hasks with rfl | rfl
    · rw [plainOutcome_selectedFiles hdesktop] at hfields
      exact absurd hfields (by simp [Outcome.keyed])
    · rw [plainOutcome_selectedFileContents hdesktop] at hfields
      exact absurd hfields (by simp [Outcome.keyed, Outcome.withField])
  · -- A value under such a key is never empty.
    have hne : key ≠ inputKey := by
      rcases eq_of_asksForFiles hd hasks with rfl | rfl
      · rw [← Option.some.inj hkey]
        decide
      · rw [← Option.some.inj hkey]
        decide
    rw [(isResolved_iff hne).2 (by simp [hget])] at hctx
    exact absurd hctx (by simp)

/-- Whether a rendering that starts from a context puts in what that has, and finds nothing. -/
structure Repeating (host : Host) (l : Layout α) (ctx : Context) (m : Machine) (r : Rendering Machine)
    (u : Filling α) : Prop where
  /-- There is still the same to look up. -/
  sources : SameSources m r.state
  /-- The context is as it was. -/
  context : r.context = ctx
  /-- What was put in is what the context has. -/
  shown : ∀ h ∈ l.heads, ∀ text, u h.tag = some text →
    .ofList text.1 = shownText host ctx h.opening.name
  /-- Evaluations have given nothing. -/
  nothing : ∀ e ∈ r.evaluations, e.outcome.text = ""

section Step

variable (hdesktop : host.desktop = .fixed desktop) (hlookups : LooksUp host (flat cells))
  {r₁ r : Rendering Machine} {u₁ u : Filling α}
  (hrecalling : Recalling host desktop (flat cells) seed m r₁ u₁)
  (hall : ∀ h ∈ (flat cells).heads, u₁ h.tag ≠ none) {d : Builtin} {head : Head α} {pos : Nat}
  {text : PlainText} (hd : d ∈ builtin host) (hmark : (head, pos) ∈ ((flat cells).fill u).marks 0)
  (hname : head.opening.name = d.name)
  (htracks : Tracks (builtin host) r₁.context (flat cells) r u)
  {m' : Machine} (hm : SameSources m m') (h : Repeating host (flat cells) r₁.context m' r u)
include hdesktop hlookups hrecalling hall hd hmark hname htracks hm h

omit [DecidableEq α] in
/-- An evaluation in the second rendering finds nothing. -/
theorem Repeating.quiet :
    d ∈ lookups host ∧ ∃ key, IsLookup desktop d key ∧ r₁.context.isResolved key = false ∧
      SameSources m' (r.step d (head.token pos)).state ∧
      Quiet key r₁.context (⟨d, head.token pos, r.context, r.state⟩ : Evaluation Machine).outcome := by
  obtain ⟨hmem, hhead, -, hargs⟩ := hlookups.evaluated hd hmark hname
  obtain ⟨key, hlookup⟩ := exists_isLookup hdesktop hmem
  have hctx : r₁.context.isResolved key = false :=
    isResolved_of_seedText?_eq_none hmem hlookup
      (hname ▸ htracks.seeded head (mem_heads_of_mem_marks hmark))
  -- In the first rendering it was filled, but the context has no text for it.
  obtain ⟨text₁, htext₁⟩ := Option.ne_none_iff_exists'.1 (hall head hhead)
  have hrecalled := hrecalling.recalled head hhead d hmem hname.symm key hlookup
  rw [htext₁] at hrecalled
  obtain ⟨hseed, hquiet⟩ := hrecalled.quiet hctx
  refine ⟨hmem, key, hlookup, hctx, h.sources.trans (hlookup.sources _ _ _ hargs), ?_⟩
  -- It gives what the first rendering was given.
  have hasks : asksForFiles d.name = true →
      selectionIn desktop r₁.context = selectionIn desktop seed := fun hasks =>
    absurd hquiet (not_quiet_of_asksForFiles hdesktop hd hasks hlookup.primary hctx)
  rw [hlookup.outcome_eq _ _ _ hargs, h.context]
  rcases hlookup.again seed r₁.context m r.state (hm.trans h.sources) hrecalling.application hasks
    hseed with hfirst | ⟨hresolved, -, -⟩
  · rwa [hfirst]
  · exact absurd (hctx.symm.trans hresolved) (by simp)

/-- An evaluation keeps the texts that the context has. -/
theorem Repeating.step (hnd : (flat cells).tags.Nodup)
    (htext : (⟨d, head.token pos, r.context, r.state⟩ : Evaluation Machine).outcome.text =
      .ofList text.1) :
    Repeating host (flat cells) r₁.context m' (r.step d (head.token pos))
      (u.then (resultFilling ((flat cells).fill u) d head text)) := by
  obtain ⟨hmem, key, hlookup, hctx, hsources, hquiet⟩ :=
    Repeating.quiet hdesktop hlookups hrecalling hall hd hmark hname htracks hm h
  refine ⟨hsources, ?_, fun h' hh' text' hv => ?_, fun e he => ?_⟩
  · rw [context_step, h.context]
    rw [h.context] at hquiet
    exact hquiet.merge
  · have hleft := mem_heads_of_mem_marks hmark
    by_cases hother : d.name = h'.opening.name
    · -- What is put in now is empty, and so is what the context has.
      rcases (then_resultFilling hnd hleft hname text hh').2 text' hv with hold | rfl
      · exact h.shown h' hh' text' hold
      · rw [← htext, hquiet.1, shownText, ← hother, seedText?_lookup hmem hlookup,
          if_neg (by simp [hctx])]
        rfl
    · rw [(then_resultFilling hnd hleft hname text hh').1 hother] at hv
      exact h.shown h' hh' text' hv
  · rcases mem_evaluations_step.1 he with he | rfl
    · exact h.nothing e he
    · exact hquiet.1

end Step

theorem repeating_startIn {l : Layout α} (hnd : l.tags.Nodup) (template : String) (ctx : Context)
    (m : Machine) : Repeating host l ctx m (startIn (builtin host) template ctx m)
      (seedFilling l (builtin host) ctx) := by
  refine ⟨.refl m, rfl, fun h hh text hv => ?_, by simp [startIn, Rendering.evaluations]⟩
  rw [seedFilling, fillingBy_tag hnd _ hh] at hv
  obtain ⟨s, hs, hplain⟩ := Option.bind_eq_some_iff.1 hv
  rw [shownText, hs, ← eq_of_plainText? hplain, Option.getD_some]

/-! ## §2 Both renderings -/

omit [DecidableEq α] in
/-- No token is left that looks something up. -/
theorem filled_of_gone (hlookups : LooksUp host (flat cells)) {r : Rendering Machine} {u v : Filling α}
    (htracks : Tracks (builtin host) seed (flat cells) r u)
    (hworked : Worked (builtin host) seed (flat cells) r v)
    (hgone : ∀ d ∈ builtin host, Gone ((flat cells).fill v) d.name) :
    ∀ h ∈ (flat cells).heads, u h.tag ≠ none := by
  intro h hh hnone
  obtain ⟨-, -, d, hd, hname⟩ := hlookups h hh
  exact htracks.gone_iff.2 (hworked.gone_iff.1 (hgone d (mem_builtin_of_mem_lookups hd))) h
    (mem_heads_fill_flat hh hnone) hname.symm

section Renderings

variable (hdesktop : host.desktop = .fixed desktop) (hlookups : LooksUp host (flat cells))
  (hnd : (flat cells).tags.Nodup) {template : String} (hl : template.toList = (flat cells).write)
  {limit : Nat} (hlimit : (flat cells).heads.length ≤ limit)
include hdesktop hlookups hnd hl hlimit

/-- A rendering puts in what is found at first, for every token. -/
theorem exists_recalling (hsettled : AskAlike (flat cells) ∨ FilesSettled desktop seed)
    (hseed : ∀ h ∈ (flat cells).heads, ∀ s,
      seedText? (builtin host) seed h.opening.name = some s → BraceFree s.toList)
    (hfree : ∀ e ∈ (renderIn (builtin host) limit template seed m).evaluations,
      BraceFree e.outcome.text.toList) :
    ∃ u, Tracks (builtin host) seed (flat cells) (renderIn (builtin host) limit template seed m) u ∧
      Recalling host desktop (flat cells) seed m (renderIn (builtin host) limit template seed m) u ∧
      ∀ h ∈ (flat cells).heads, u h.tag ≠ none := by
  obtain ⟨v, hworked, hgone⟩ := exists_tracks_renderIn hnd hl hlimit hseed
    (noEarlyFields_builtin host limit rfl) hfree
  -- The filling that was kept track of is full, as no token is left in the text.
  obtain ⟨u, htracks, hrecalling⟩ := tracks_induction hnd hl hseed
    (Q := Recalling host desktop (flat cells) seed m) (recalling_startIn hnd template)
    (fun d hd r u head pos text htracks hq hmark hfirst htext =>
      Recalling.step hdesktop hlookups hd hmark (mem_of_firstNamed hfirst).2 hnd hsettled htracks hq
        htext) hfree
  exact ⟨u, htracks, hrecalling, filled_of_gone hlookups htracks hworked hgone⟩

/-- A rendering from the context of one that has done so puts in what that context has. -/
theorem exists_repeating {r₁ : Rendering Machine} {u₁ : Filling α}
    (hrecalling : Recalling host desktop (flat cells) seed m r₁ u₁)
    (hall : ∀ h ∈ (flat cells).heads, u₁ h.tag ≠ none) {m' : Machine} (hm : SameSources m m') :
    ∃ u, Tracks (builtin host) r₁.context (flat cells)
        (renderIn (builtin host) limit template r₁.context m') u ∧
      Repeating host (flat cells) r₁.context m'
        (renderIn (builtin host) limit template r₁.context m') u ∧
      ∀ h ∈ (flat cells).heads, u h.tag ≠ none := by
  -- The texts of the context hold no braces, as they have been put in.
  have hseed : ∀ h ∈ (flat cells).heads, ∀ s,
      seedText? (builtin host) r₁.context h.opening.name = some s → BraceFree s.toList := by
    intro h hh s hs
    obtain ⟨-, -, d, hd, hname⟩ := hlookups h hh
    obtain ⟨key, hlookup⟩ := exists_isLookup hdesktop hd
    obtain ⟨text, htext⟩ := Option.ne_none_iff_exists'.1 (hall h hh)
    have hshown := (hrecalling.recalled h hh d hd hname key hlookup).shown hd hlookup htext
    rw [shownText, hname, hs, Option.getD_some] at hshown
    rw [← hshown, String.toList_ofList]
    exact text.2
  -- Results hold no braces, as they are empty.
  obtain ⟨u, htracks, hrepeating⟩ := tracks_induction_while hnd hl hseed
    (repeating_startIn hnd template r₁.context m')
    (fun d hd r u head pos text htracks hq hmark hfirst htext =>
      Repeating.step hdesktop hlookups hrecalling hall hd hmark (mem_of_firstNamed hfirst).2 htracks
        hm hq hnd htext)
    (fun _ => True) (fun _ _ _ _ => trivial)
    (fun d hd r u head pos htracks hq hmark hfirst _ => by
      obtain ⟨-, key, -, -, -, hquiet⟩ := Repeating.quiet hdesktop hlookups hrecalling hall hd hmark
        (mem_of_firstNamed hfirst).2 htracks hm hq
      rw [hquiet.1]
      exact braceFree_nil) trivial
  obtain ⟨v, hworked, hgone⟩ := exists_tracks_renderIn hnd hl hlimit hseed
    (noEarlyFields_builtin host limit rfl) fun e he => by
      rw [hrepeating.nothing e he]
      exact braceFree_nil
  exact ⟨u, htracks, hrepeating, filled_of_gone hlookups htracks hworked hgone⟩

end Renderings

omit [DecidableEq α] in
/-- A template whose tokens are all replaced by the texts that a context has. -/
theorem eq_splice_of_shown {cells : List (Cell (Leaf Span))} {template text : String}
    (hl : template.toList = (flat cells).write)
    (htags : ∀ m ∈ (flat cells).marks 0, m.1.tag = (m.1.token m.2).span) {u : Filling Span}
    (htext : text.toList = ((flat cells).fill u).write)
    (hall : ∀ h ∈ (flat cells).heads, u h.tag ≠ none) {ctx : Context}
    (hshown : ∀ h ∈ (flat cells).heads, ∀ text, u h.tag = some text →
      .ofList text.1 = shownText host ctx h.opening.name) :
    text = splice template ((tokens template).map fun t => ⟨t.span, shownText host ctx t.name⟩) := by
  have hpatched := patched_fill u (flat cells) 0
  rw [edits_flat hl htags hall, ← hl, ← htext] at hpatched
  have hedits : ((tokens template).map fun t => (⟨t.span, u.textAt t.span⟩ : Edit)) =
      (tokens template).map fun t => ⟨t.span, shownText host ctx t.name⟩ := by
    refine List.map_congr_left fun t ht => ?_
    rw [tokens_of_layout hl] at ht
    obtain ⟨mark, hmark, rfl⟩ := List.mem_map.1 ht
    have hhead := mem_heads_of_mem_marks hmark
    obtain ⟨text, hv⟩ := Option.ne_none_iff_exists'.1 (hall mark.1 hhead)
    dsimp only
    rw [← htags mark hmark, Filling.textAt_of_some hv, hshown mark.1 hhead text hv, Head.token_name]
  rw [← hedits, splice_eq_of_patched hpatched, String.ofList_toList]

/-- Whether a token has neither arguments nor a body, and its directive is a built-in one with a result
key that looks up no place. -/
structure IsPlainLookup (host : Host) (t : Token) : Prop where
  /-- It has no arguments. -/
  args : t.args.isEmpty = true
  /-- It has no body. -/
  body : t.body = none
  /-- It has such a directive. -/
  directive : ∃ d ∈ builtin host, d.name = t.name ∧ d.resultKeys ≠ [] ∧ d.name ∉ locatingNames

instance (host : Host) (t : Token) : Decidable (IsPlainLookup host t) :=
  decidable_of_iff (t.args.isEmpty = true ∧ t.body = none ∧
      ∃ d ∈ builtin host, d.name = t.name ∧ d.resultKeys ≠ [] ∧ d.name ∉ locatingNames)
    ⟨fun h => ⟨h.1, h.2.1, h.2.2⟩, fun h => ⟨h.args, h.body, h.directive⟩⟩

/-- Rendering a template of lookups again, from the context that was returned, gives the same text and
the same context, if nothing has changed that is looked up. -/
theorem render_again (host : Host) {desktop : FixedDesktop} (hdesktop : host.desktop = .fixed desktop)
    (limit : Nat) {template : String} (hflat : Unnested template)
    (hbraces : OnlyInTokens isBrace template) (htokens : ∀ t ∈ tokens template, IsPlainLookup host t)
    {seed : Context} (hseed : ∀ key s, Context.text? seed key = some s → BraceFree s.toList)
    (hsettled : (∀ t ∈ tokens template, ∀ t' ∈ tokens template, asksForFiles t.name = true →
      asksForFiles t'.name = true → t.raw = t'.raw) ∨ FilesSettled desktop seed)
    (hlimit : (tokens template).length ≤ limit) {m m' : Machine} (hm : SameSources m m')
    (hfree : ∀ e ∈ (render [] (builtin host) limit template seed m).evaluations,
      BraceFree e.outcome.text.toList) :
    let r := render [] (builtin host) limit template seed m
    let r' := render [] (builtin host) limit template r.context m'
    r'.text = r.text ∧ r'.context = r.context ∧ SameSources m r.state := by
  intro r r'
  obtain ⟨cells, hl, htags⟩ := exists_flat Token.span hflat hbraces
  have hnd := nodup_tags_of_span htags
  -- What is said of the tokens is said of the heads.
  have hlookups : LooksUp host (flat cells) := by
    intro h hh
    obtain ⟨pos, -, ht⟩ := exists_token_of_mem_heads hl hh
    obtain ⟨hargs, hbody, d, hd, hname, hkeys, hplace⟩ := htokens _ ht
    exact ⟨hargs, Option.map_eq_none_iff.1 hbody, d, mem_lookups hd hkeys hplace, hname⟩
  have halike : AskAlike (flat cells) ∨ FilesSettled desktop seed := by
    refine hsettled.imp_left fun h h₁ hh₁ h₂ hh₂ hasks₁ hasks₂ => ?_
    obtain ⟨pos₁, -, ht₁⟩ := exists_token_of_mem_heads hl hh₁
    obtain ⟨pos₂, -, ht₂⟩ := exists_token_of_mem_heads hl hh₂
    exact String.ofList_inj.1 (h _ ht₁ _ ht₂ hasks₁ hasks₂)
  have hheads : (flat cells).heads.length ≤ limit := by
    rwa [length_tokens_of_layout hl] at hlimit
  have hseeds : ∀ h ∈ (flat cells).heads, ∀ s,
      seedText? (builtin host) seed h.opening.name = some s → BraceFree s.toList :=
    fun _ _ _ => braceFree_of_seedText? hseed
  have hr : r = renderIn (builtin host) limit template seed m := render_nil ..
  have hr' : r' = renderIn (builtin host) limit template r.context m' := render_nil ..
  obtain ⟨u, htracks, hrecalling, hall⟩ :=
    exists_recalling hdesktop hlookups hnd hl hheads halike hseeds (by rwa [← hr])
  rw [← hr] at htracks hrecalling
  obtain ⟨u', htracks', hrepeating, hall'⟩ :=
    exists_repeating hdesktop hlookups hnd hl hheads hrecalling hall hm
  rw [← hr'] at htracks' hrepeating
  -- Both texts are the template with the texts of the context in the places of its tokens.
  have htext := eq_splice_of_shown hl htags htracks.text hall fun h hh text hv => by
    obtain ⟨-, -, d, hd, hname⟩ := hlookups h hh
    obtain ⟨key, hlookup⟩ := exists_isLookup hdesktop hd
    rw [← hname]
    exact (hrecalling.recalled h hh d hd hname key hlookup).shown hd hlookup hv
  have htext' := eq_splice_of_shown hl htags htracks'.text hall' hrepeating.shown
  exact ⟨htext'.trans htext.symm, hrepeating.context, hrecalling.sources⟩

/-- A word on the clipboard, a selected file and nothing typed. -/
theorem render_again_word :
    let desktop := { (default : FixedDesktop) with selectedFiles := ["a.png"] }
    let order := builtin (stillHost desktop)
    let template := "{{clipboardText}} {{selectedFiles}}{{input}}"
    let m := { stillMachine Dict.empty with clipboard := some "noon" }
    let r := render [] order 3 template Dict.empty m
    let r' := render [] order 3 template r.context { m with clipboardReads := 1 }
    r'.text = r.text ∧ r'.context = r.context ∧ SameSources m r.state := by
  intro desktop order template m
  have hseed : ∀ key s, Context.text? Dict.empty key = some s → BraceFree s.toList :=
    fun key s hs => absurd hs (by simp [Context.text?, Dict.get?, Dict.empty])
  have htokens : ∀ t ∈ tokens template, IsPlainLookup (stillHost desktop) t := by decide +kernel
  have hsettled : FilesSettled desktop Dict.empty := by
    show splitPaths (joinPaths ["a.png"]) = ["a.png"]
    decide +kernel
  have hfree : ∀ e ∈ (render [] order 3 template Dict.empty m).evaluations,
      BraceFree e.outcome.text.toList := by
    decide +kernel
  exact render_again (stillHost desktop) rfl 3 (by decide +kernel) (by decide +kernel) htokens hseed
    (.inr hsettled) (by decide +kernel) ⟨rfl, rfl, rfl, rfl⟩ hfree

/-- Where no token is left after the seeded values are put in, that is the text. -/
theorem text_of_applySeed {σ : Type} {order : List (Directive σ)} {ctx : Context}
    {template out : String} (h : applySeed order ctx template = out) (hnone : tokens out = [])
    (limit : Nat) (state : σ) : (render [] order limit template ctx state).text = out := by
  rw [render_nil, renderIn_eq, visits_of_not_mentioned]
  · exact h
  · intro d _ t ht
    rw [startIn, h, hnone] at ht
    exact absurd ht List.not_mem_nil

/-- Selected files that are seeded without a blank between them. -/
theorem context_not_replayed :
    let order := builtin (stillHost default)
    let template := "{{selectedFiles}} {{selectedFileContents}}"
    let seed : Context := Dict.empty.insert selectedFilesKey (.text "a.png,b.txt")
    let m := stillMachine Dict.empty
    (∀ t ∈ tokens template, IsPlainLookup (stillHost default) t) ∧
      (render [] order 2 template seed m).text = "a.png,b.txt " ∧
      (render [] order 2 template (render [] order 2 template seed m).context m).text =
        "a.png, b.txt " := by
  intro order template seed m
  refine ⟨by decide +kernel, by decide +kernel, ?_⟩
  -- The context has a text for both tokens.
  have hedits : keepOuter 0 ((tokens template).filterMap
      (seededEdit? order (render [] order 2 template seed m).context)) =
      [⟨⟨0, 17⟩, "a.png, b.txt"⟩, ⟨⟨18, 42⟩, ""⟩] := by
    decide +kernel
  generalize (render [] order 2 template seed m).context = ctx at hedits ⊢
  refine text_of_applySeed ?_ (by decide +kernel) 2 m
  rw [applySeed, hedits, splice_pair template (by decide)]
  decide +kernel

end Stencil.Engine
