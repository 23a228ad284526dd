import Stencil.Custom
import Stencil.Proofs.Engine.Fields
import Stencil.Proofs.Engine.InOrder
import Stencil.Proofs.Template.RawText

/-!
# Configured Placeholders Expand First

The placeholders that a user has configured are visited before all built-in directives.  They give
text alone: they write no context fields and leave the state as it is.  So rendering a template with
placeholders is expanding it and then rendering what has come out without them.

Main statement: `render_expandAll`.
-/

namespace Stencil.Custom

open Template

/-! ## §1 Expanding a template -/

/-- A text after a placeholder was expanded at one of its tokens: there, or at every token written
alike if the placeholder is constant. -/
def Placeholder.expandAt (p : Placeholder) (text : String) (token : Token) : String :=
  let alike := if p.constant then (tokens text).filter (·.raw == token.raw) else [token]
  splice text (alike.map fun t => ⟨t.span, p.expand token⟩)

/-- A text after a placeholder was expanded as long as it has tokens, but at most so many times; each
time at the token that is found first. -/
def Placeholder.expandIn (p : Placeholder) : Nat → String → String
  | 0, text => text
  | limit + 1, text =>
    match firstNamed text p.name with
    | none => text
    | some (token, _) => p.expandIn limit (p.expandAt text token)

/-- A text after placeholders were expanded, one after the other. -/
def expandAll (limit : Nat) (placeholders : List Placeholder) (text : String) : String :=
  placeholders.foldl (fun text p => p.expandIn limit text) text

end Stencil.Custom

namespace Stencil.Engine

open Template Custom Directives Catalog

variable {σ : Type}

/-! ## §2 Visits of placeholders -/

/-- The edits for a token of a directive are those of the tokens written alike, if it is constant. -/
theorem editsFor_of_mem {d : Directive σ} {text : String} {token : Token}
    (htoken : token ∈ tokens text) (hname : token.name = d.name) (result : String) :
    editsFor d text token result =
      (if d.constant then (tokens text).filter (·.raw == token.raw) else [token]).map
        fun t => ⟨t.span, result⟩ := by
  rw [editsFor]
  split
  · -- Tokens that are written alike have the name of the directive.
    have halike : (tokensNamed text d.name).filter (·.raw == token.raw) =
        (tokens text).filter (·.raw == token.raw) := by
      rw [tokensNamed, List.filter_filter]
      refine List.filter_congr fun t ht => ?_
      rw [Bool.and_eq_left_iff_imp, beq_iff_eq, beq_iff_eq]
      intro hraw
      rw [(parts_eq_of_raw_eq ht htoken hraw).1, hname]
    rw [halike]
  · rfl

/-- An evaluation of a placeholder expands it at the token, and that is all. -/
theorem step_placeholder (p : Placeholder) (r : Rendering σ) {token : Token}
    (htoken : token ∈ tokens r.text) (hname : token.name = p.name) :
    r.step p.directive token = ⟨p.expandAt r.text token, r.context, r.state,
      ⟨p.directive, token, r.context, r.state⟩ :: r.journal⟩ := by
  have hedits := editsFor_of_mem (d := (p.directive : Directive σ)) htoken hname (p.expand token)
  rw [Placeholder.expandAt]
  change Rendering.mk (splice r.text (editsFor p.directive r.text token (p.expand token))) _ _ _ = _
  rw [hedits]
  rfl

/-- Working off a placeholder expands it, and that is all. -/
theorem resolve_placeholder (p : Placeholder) (limit : Nat) (r : Rendering σ) :
    ∃ es, resolve p.directive limit r =
        ⟨p.expandIn limit r.text, r.context, r.state, es ++ r.journal⟩ ∧
      ∀ e ∈ es, e.directive = p.directive := by
  induction limit generalizing r with
  | zero => exact ⟨[], rfl, by simp⟩
  | succ limit ih =>
    rw [resolve, Placeholder.expandIn]
    change ∃ es, (match firstNamed r.text p.name with
      | none => r
      | some (token, _) => resolve p.directive limit (r.step p.directive token)) = _ ∧ _
    cases hfirst : firstNamed r.text p.name with
    | none => exact ⟨[], rfl, by simp⟩
    | some found =>
      obtain ⟨token, nested⟩ := found
      -- The step changes the text as expanding one token does, and only adds to the journal.
      obtain ⟨es, hes, howned⟩ := ih (r.step p.directive token)
      rw [step_placeholder p r (mem_tokens_of_firstNamed hfirst) (name_of_firstNamed hfirst)] at hes
      refine ⟨es ++ [⟨p.directive, token, r.context, r.state⟩], ?_, fun e he => ?_⟩
      · dsimp only
        rw [step_placeholder p r (mem_tokens_of_firstNamed hfirst) (name_of_firstNamed hfirst), hes,
          List.append_assoc]
        rfl
      · rcases List.mem_append.1 he with he | he
        · exact howned e he
        · rw [List.mem_singleton.1 he]

/-- Visiting placeholders expands them one after the other, and that is all. -/
theorem visits_placeholders (order : List (Directive σ)) (limit : Nat) (ps : List Placeholder)
    (r : Rendering σ) :
    ∃ es, (ps.map Placeholder.directive).foldl (visit order limit) r =
        ⟨expandAll limit ps r.text, r.context, r.state, es ++ r.journal⟩ ∧
      ∀ e ∈ es, ∃ p ∈ ps, e.directive = p.directive := by
  induction ps generalizing r with
  | nil => exact ⟨[], rfl, by simp⟩
  | cons p ps ih =>
    obtain ⟨es, hes, howned⟩ := resolve_placeholder p limit r
    obtain ⟨es', hes', howned'⟩ :=
      ih ⟨p.expandIn limit r.text, r.context, r.state, es ++ r.journal⟩
    refine ⟨es' ++ es, ?_, fun e he => ?_⟩
    · -- A placeholder has neither result keys nor dependencies.
      rw [List.map_cons, List.foldl_cons, visit_eq_resolve rfl rfl, hes, hes', List.append_assoc]
      rfl
    · rcases List.mem_append.1 he with he | he
      · obtain ⟨q, hq, heq⟩ := howned' e he
        exact ⟨q, List.mem_cons_of_mem _ hq, heq⟩
      · exact ⟨p, List.mem_cons_self, howned e he⟩

/-! ## §3 Renderings that go on from others -/

/-- A rendering as it goes on behind earlier evaluations, the latest of these first. -/
def Rendering.behind (earlier : List (Evaluation σ)) (r : Rendering σ) : Rendering σ :=
  { r with journal := r.journal ++ earlier }

/-- Earlier evaluations play no part when a directive is worked off. -/
theorem resolve_behind (earlier : List (Evaluation σ)) (d : Directive σ) (limit : Nat)
    (r : Rendering σ) :
    resolve d limit (r.behind earlier) = (resolve d limit r).behind earlier := by
  induction limit generalizing r with
  | zero => rfl
  | succ limit ih =>
    have hfirst : firstNamed (r.behind earlier).text d.name = firstNamed r.text d.name := rfl
    rw [resolve, resolve, hfirst]
    split
    · rfl
    · exact ih (r.step d _)

theorem foldl_resolve_behind (earlier : List (Evaluation σ)) (limit : Nat)
    (ds : List (Directive σ)) (r : Rendering σ) :
    ds.foldl (fun r d => resolve d limit r) (r.behind earlier) =
      (ds.foldl (fun r d => resolve d limit r) r).behind earlier := by
  induction ds generalizing r with
  | nil => rfl
  | cons d ds ih => rw [List.foldl_cons, List.foldl_cons, resolve_behind, ih]

/-- They play none in visits either, and an order matters only for what it makes of dependencies. -/
theorem visits_behind {order order' ds : List (Directive σ)}
    (hwork : ∀ d ∈ ds, worklist order d = worklist order' d) (earlier : List (Evaluation σ))
    (limit : Nat) (r : Rendering σ) :
    ds.foldl (visit order limit) (r.behind earlier) =
      (ds.foldl (visit order' limit) r).behind earlier := by
  induction ds generalizing r with
  | nil => rfl
  | cons d ds ih =>
    have hvisit : visit order limit (r.behind earlier) d =
        (visit order' limit r d).behind earlier := by
      have hskip : (!mentions (r.behind earlier).text d.name ||
          d.isResolvedIn (r.behind earlier).context) =
          (!mentions r.text d.name || d.isResolvedIn r.context) := rfl
      -- Whether a directive is skipped is seen in the text and the context, which are the same.
      rw [visit, visit, hskip, hwork d List.mem_cons_self, foldl_resolve_behind]
      exact (apply_ite (Rendering.behind earlier) _ _ _).symm
    rw [List.foldl_cons, List.foldl_cons, hvisit]
    exact ih (fun d hd => hwork d (List.mem_cons_of_mem _ hd)) _

/-! ## §4 The rendering -/

section Rendering

variable {host : Host} {ps : List Placeholder} (hnames : ∀ p ∈ ps, p.name ∉ builtinNames)
include hnames

theorem evaluationOrder_placeholders :
    evaluationOrder (ps.map Placeholder.directive) (builtin host) =
      ps.map Placeholder.directive ++ builtin host := by
  refine congrArg _ (List.filter_eq_self.2 fun d hd => ?_)
  have hname : d.name ∈ builtinNames := by
    rw [← names_builtin host]
    exact List.mem_map_of_mem hd
  rw [Bool.not_eq_true', List.any_eq_false]
  intro c hc
  obtain ⟨p, hp, rfl⟩ := List.mem_map.1 hc
  rw [beq_iff_eq]
  intro (heq : p.name = d.name)
  exact hnames p hp (heq ▸ hname)

theorem find?_placeholders {name : String} (hname : name ∈ builtinNames) :
    Directive.find? (ps.map Placeholder.directive ++ builtin host) name =
      Directive.find? (builtin host) name := by
  rw [Directive.find?, List.find?_append, List.find?_eq_none.2, Option.none_or]
  · rfl
  · intro c hc
    obtain ⟨p, hp, rfl⟩ := List.mem_map.1 hc
    rw [beq_iff_eq]
    intro (heq : p.name = name)
    exact hnames p hp (heq ▸ hname)

theorem worklist_placeholders {d : Builtin} (hd : d ∈ builtin host) :
    worklist (ps.map Placeholder.directive ++ builtin host) d = worklist (builtin host) d := by
  refine congrArg (· ++ [d]) (List.filterMap_congr fun name hname => ?_)
  apply find?_placeholders hnames
  rw [dependencies_builtin host d hd name hname]
  decide +kernel

omit hnames in
theorem seedText?_placeholders {seed : Context}
    (hseed : ∀ d ∈ builtin host, ∀ key ∈ d.resultKeys.head?, seed.isResolved key = false)
    (name : String) :
    seedText? (ps.map Placeholder.directive ++ builtin host) seed name = none := by
  rw [seedText?]
  cases hfind : Directive.find? (ps.map Placeholder.directive ++ builtin host) name with
  | none => rfl
  | some d =>
    rw [Option.bind_eq_bind, Option.bind_some]
    rcases List.mem_append.1 (mem_of_find? hfind) with hd | hd
    · obtain ⟨p, -, rfl⟩ := List.mem_map.1 hd
      rfl
    · cases hkey : d.resultKeys.head? with
      | none => rfl
      | some key => simp [hseed d hd key hkey]

end Rendering

/-- **Rendering with placeholders is rendering what they expand to.**  Placeholders whose names tokens can
have and no built-in directive has are expanded first, each in its turn and as often as the limit
allows.  When the seed has no values for built-in directives, the text, the context and everything that
directives work on, the store among it, come out as if the expanded template had been rendered without
placeholders; and that is also what is evaluated after the placeholders. -/
theorem render_expandAll (host : Host) (limit : Nat) (template : String) (m : Machine)
    {ps : List Placeholder} (haccepted : ∀ p ∈ ps, isValidName p.name = true)
    (hnames : ∀ p ∈ ps, p.name ∉ builtinNames) {seed : Context}
    (hseed : ∀ d ∈ builtin host, ∀ key ∈ d.resultKeys.head?, seed.isResolved key = false) :
    let r := render (directives ps) (builtin host) limit template seed m
    let r' := render [] (builtin host) limit (expandAll limit ps template) seed m
    r.text = r'.text ∧ r.context = r'.context ∧ r.state = r'.state ∧
      ∃ es, r.evaluations = es ++ r'.evaluations ∧ ∀ e ∈ es, ∃ p ∈ ps, e.directive = p.directive := by
  intro r r'
  -- No token has a seeded value, whatever the template.
  have hstart (ps : List Placeholder) (hnames : ∀ p ∈ ps, p.name ∉ builtinNames)
      (template : String) : startIn (ps.map Placeholder.directive ++ builtin host) template seed m =
        ⟨template, seed, m, []⟩ := by
    rw [startIn, applySeed_of_none fun t _ => seedText?_placeholders hseed t.name]
  have hdirectives : directives ps = ps.map (Placeholder.directive (σ := Machine)) := by
    rw [directives, List.filter_eq_self.2 haccepted]
  obtain ⟨es, hes, howned⟩ := visits_placeholders
    (ps.map Placeholder.directive ++ builtin host) limit ps (⟨template, seed, m, []⟩ : Rendering Machine)
  have hr' : r' = (builtin host).foldl (visit (builtin host) limit)
      ⟨expandAll limit ps template, seed, m, []⟩ := by
    have hnone := hstart [] (by simp) (expandAll limit ps template)
    rw [List.map_nil, List.nil_append] at hnone
    change render [] (builtin host) limit (expandAll limit ps template) seed m = _
    rw [render, evaluationOrder_nil, renderIn_eq, hnone]
  have hr : r = r'.behind es := by
    change render (directives ps) (builtin host) limit template seed m = _
    rw [render, hdirectives, evaluationOrder_placeholders hnames, renderIn_eq, hstart ps hnames,
      List.foldl_append, hes, List.append_nil, hr']
    exact visits_behind (fun d hd => worklist_placeholders hnames hd) es limit
      ⟨expandAll limit ps template, seed, m, []⟩
  refine ⟨by rw [hr]; rfl, by rw [hr]; rfl, by rw [hr]; rfl, es.reverse, ?_, ?_⟩
  · rw [hr, Rendering.evaluations, Rendering.evaluations, Rendering.behind, List.reverse_append]
  · exact fun e he => howned e (List.mem_reverse.1 he)

/-- A placeholder that expands to another and to a built-in token. -/
theorem render_expandAll_greeting :
    let host := stillHost default
    let ps : List Placeholder :=
      [⟨"greet", "Hello $1{{clipboardText}}{{sign}}", none, false⟩, ⟨"sign", "!", none, true⟩]
    let template := "{{greet dear}}"
    let m := { stillMachine Dict.empty with clipboard := some "you" }
    expandAll 5 ps template = "Hello dear{{clipboardText}}!" ∧
      (render (directives ps) (builtin host) 5 template Dict.empty m).text =
        (render [] (builtin host) 5 (expandAll 5 ps template) Dict.empty m).text := by
  intro host ps template m
  have haccepted : ∀ p ∈ ps, isValidName p.name = true := by decide +kernel
  have hnames : ∀ p ∈ ps, p.name ∉ builtinNames := by decide +kernel
  have hseed : ∀ d ∈ builtin host, ∀ key ∈ d.resultKeys.head?,
      Context.isResolved Dict.empty key = false := fun _ _ _ _ => rfl
  exact ⟨by decide +kernel, (render_expandAll host 5 template m haccepted hnames hseed).1⟩

end Stencil.Engine
