import Mathlib.Data.List.Forall2
import Stencil.Engine
import Stencil.Proofs.Template.Lookups
import Stencil.Proofs.Template.Splicing

/-!
# The Journal of a Rendering

A rendering only ever adds to its journal.  What a visit adds is a block: the evaluations of the
directive's dependencies in declared order, each dependency's together, and then those of the
directive.  The journal of a rendering is the blocks of its directives one after the other.

Main statement: `evaluations_renderIn`.
-/

namespace Stencil.Engine

open Template

variable {σ : Type}

/-! ## §1 Blocks -/

/-- Whether evaluations are all of one directive, for tokens of its name. -/
def Owned (d : Directive σ) (es : List (Evaluation σ)) : Prop :=
  ∀ e ∈ es, e.directive = d ∧ e.token.name = d.name

/-- Whether evaluations are those of a visit of a directive: for each of its dependencies, in
declared order, evaluations of the directive of that name, and then evaluations of the directive. -/
def IsBlock (order : List (Directive σ)) (d : Directive σ) (es : List (Evaluation σ)) : Prop :=
  ∃ parts own, es = parts.flatten ++ own ∧
    List.Forall₂ (fun name part => ∀ e ∈ part,
      Directive.find? order name = some e.directive ∧ e.token.name = name) d.dependencies parts ∧
    Owned d own

theorem name_of_find? {ds : List (Directive σ)} {name : String} {d : Directive σ}
    (h : Directive.find? ds name = some d) : d.name = name := by
  simpa using List.find?_some h

theorem mem_of_find? {ds : List (Directive σ)} {name : String} {d : Directive σ}
    (h : Directive.find? ds name = some d) : d ∈ ds :=
  List.mem_of_find?_eq_some h

/-- Only directives of the order are worked off. -/
theorem mem_of_mem_worklist {order : List (Directive σ)} {d d' : Directive σ} (hd : d ∈ order)
    (hd' : d' ∈ worklist order d) : d' ∈ order := by
  rcases List.mem_append.1 hd' with hd' | hd'
  · obtain ⟨name, -, hfind⟩ := List.mem_filterMap.1 hd'
    exact mem_of_find? hfind
  · rw [List.mem_singleton.1 hd']
    exact hd

theorem find?_append_cons {before after : List (Directive σ)} {d : Directive σ}
    (h : ∀ d' ∈ before, d'.name ≠ d.name) :
    Directive.find? (before ++ d :: after) d.name = some d := by
  rw [Directive.find?, List.find?_append, List.find?_eq_none.2 (by simpa using h), Option.none_or,
    List.find?_cons_of_pos (by simp)]

theorem isBlock_nil (order : List (Directive σ)) (d : Directive σ) : IsBlock order d [] := by
  refine ⟨d.dependencies.map fun _ => [], [], by simp, ?_, by simp [Owned]⟩
  rw [List.forall₂_map_right_iff]
  exact List.forall₂_same.2 fun name _ => by simp

/-- An evaluation in a block is for a token of its directive, and that is the block's own or one of
its dependencies. -/
theorem directive_of_isBlock {order : List (Directive σ)} {d : Directive σ}
    {es : List (Evaluation σ)} (h : IsBlock order d es) : ∀ e ∈ es,
    e.token.name = e.directive.name ∧
      (e.directive = d ∨
        e.directive.name ∈ d.dependencies ∧
          Directive.find? order e.directive.name = some e.directive) := by
  obtain ⟨parts, own, rfl, hparts, hown⟩ := h
  intro e he
  rcases List.mem_append.1 he with he | he
  -- Each part belongs to the dependency in the same place.
  · obtain ⟨part, hpart, he⟩ := List.mem_flatten.1 he
    obtain ⟨i, hi, rfl⟩ := List.mem_iff_getElem.1 hpart
    have hlength := hparts.length_eq
    obtain ⟨hfind, htoken⟩ := hparts.get (by omega) hi e he
    have hname := name_of_find? hfind
    rw [← hname] at hfind htoken
    refine ⟨htoken, Or.inr ⟨?_, hfind⟩⟩
    rw [hname]
    exact List.getElem_mem _
  · obtain ⟨rfl, htoken⟩ := hown e he
    exact ⟨htoken, Or.inl rfl⟩

/-! ## §2 What is added to the journal -/

theorem outcome_of_apply {e : Evaluation σ} {outcome : Outcome} {s : σ}
    (h : e.directive.apply e.token e.context e.state = .ok outcome s) : e.outcome = outcome := by
  rw [Evaluation.outcome, Evaluation.answer, Evaluation.run, h]
  rfl

/-- A failing evaluation puts in nothing. -/
theorem outcome_of_error {e : Evaluation σ} {failure : Failure} {s : σ}
    (h : e.directive.apply e.token e.context e.state = .error failure s) : e.outcome = .empty := by
  rw [Evaluation.outcome, Evaluation.answer, Evaluation.run, h]
  rfl

/-- So a field comes from an evaluation that goes well. -/
theorem exists_apply_of_mem_fields {e : Evaluation σ} {field : String × Json}
    (h : field ∈ e.outcome.fields) : ∃ outcome s,
      e.directive.apply e.token e.context e.state = .ok outcome s ∧ field ∈ outcome.fields := by
  cases hrun : e.directive.apply e.token e.context e.state with
  | ok outcome s =>
    rw [outcome_of_apply hrun] at h
    exact ⟨outcome, s, rfl, h⟩
  | error failure s =>
    rw [outcome_of_error hrun] at h
    exact absurd h List.not_mem_nil

theorem after_of_apply {e : Evaluation σ} {outcome : Outcome} {s : σ}
    (h : e.directive.apply e.token e.context e.state = .ok outcome s) : e.after = s := by
  rw [Evaluation.after, Evaluation.run, h]

theorem evaluations_step (r : Rendering σ) (d : Directive σ) (t : Token) :
    (r.step d t).evaluations = r.evaluations ++ [⟨d, t, r.context, r.state⟩] := by
  simp [Rendering.evaluations, Rendering.step]

theorem mem_evaluations_step {r : Rendering σ} {d : Directive σ} {t : Token} {e : Evaluation σ} :
    e ∈ (r.step d t).evaluations ↔ e ∈ r.evaluations ∨ e = ⟨d, t, r.context, r.state⟩ := by
  rw [evaluations_step, List.mem_append, List.mem_singleton]

theorem evaluations_subset_step (r : Rendering σ) (d : Directive σ) (t : Token) :
    r.evaluations ⊆ (r.step d t).evaluations := fun _ he => mem_evaluations_step.2 (.inl he)

theorem last_mem_evaluations_step (r : Rendering σ) (d : Directive σ) (t : Token) :
    ⟨d, t, r.context, r.state⟩ ∈ (r.step d t).evaluations := mem_evaluations_step.2 (.inr rfl)

/-- Working off the tokens of a directive adds evaluations of it, at most as many as are allowed. -/
theorem evaluations_resolve (d : Directive σ) (limit : Nat) (r : Rendering σ) :
    ∃ es, (resolve d limit r).evaluations = r.evaluations ++ es ∧ es.length ≤ limit ∧ Owned d es := by
  induction limit generalizing r with
  | zero => exact ⟨[], by simp [resolve], Nat.le_refl _, by simp [Owned]⟩
  | succ limit ih =>
    rw [resolve]
    split
    · exact ⟨[], by simp, Nat.zero_le _, by simp [Owned]⟩
    · rename_i t nested hfirst
      obtain ⟨es, hes, hlength, howned⟩ := ih (r.step d t)
      refine ⟨⟨d, t, r.context, r.state⟩ :: es, ?_, Nat.succ_le_succ hlength, fun e he => ?_⟩
      · rw [hes, evaluations_step, List.append_assoc, List.singleton_append]
      · rcases List.mem_cons.1 he with rfl | he
        · exact ⟨rfl, name_of_firstNamed hfirst⟩
        · exact howned e he

theorem evaluations_subset_resolve (d : Directive σ) (limit : Nat) (r : Rendering σ) :
    r.evaluations ⊆ (resolve d limit r).evaluations := by
  obtain ⟨es, hes, -, -⟩ := evaluations_resolve d limit r
  rw [hes]
  exact List.subset_append_left _ _

theorem evaluations_resolveAll (limit : Nat) (ds : List (Directive σ)) (r : Rendering σ) :
    r.evaluations ⊆ (ds.foldl (fun r d => resolve d limit r) r).evaluations := by
  induction ds generalizing r with
  | nil => exact fun _ he => he
  | cons d ds ih =>
    rw [List.foldl_cons]
    exact List.Subset.trans (evaluations_subset_resolve d limit r) (ih (resolve d limit r))

/-- Working off the directives of some names adds evaluations of them, name by name. -/
theorem evaluations_dependencies (order : List (Directive σ)) (limit : Nat) (names : List String)
    (r : Rendering σ) :
    ∃ parts, ((names.filterMap (Directive.find? order)).foldl (fun r d => resolve d limit r)
        r).evaluations = r.evaluations ++ parts.flatten ∧
      List.Forall₂ (fun name part => ∀ e ∈ part,
        Directive.find? order name = some e.directive ∧ e.token.name = name) names parts := by
  induction names generalizing r with
  | nil => exact ⟨[], by simp, .nil⟩
  | cons name names ih =>
    rw [List.filterMap_cons]
    split
    · -- A name that no directive has adds nothing.
      obtain ⟨parts, hparts, hforall⟩ := ih r
      exact ⟨[] :: parts, by simpa using hparts, .cons (by simp) hforall⟩
    · rename_i d hfind
      obtain ⟨part, hpart, -, howned⟩ := evaluations_resolve d limit r
      obtain ⟨parts, hparts, hforall⟩ := ih (resolve d limit r)
      refine ⟨part :: parts, ?_, .cons (fun e he => ?_) hforall⟩
      · rw [List.foldl_cons, hparts, hpart, List.flatten_cons, List.append_assoc]
      · obtain ⟨hdirective, htoken⟩ := howned e he
        exact ⟨by rw [hdirective, hfind], by rw [htoken, name_of_find? hfind]⟩

/-- A visit adds a block. -/
theorem evaluations_visit (order : List (Directive σ)) (limit : Nat) (r : Rendering σ)
    (d : Directive σ) :
    ∃ es, (visit order limit r d).evaluations = r.evaluations ++ es ∧ IsBlock order d es := by
  unfold visit
  split
  · exact ⟨[], by simp, isBlock_nil order d⟩
  · rw [worklist, List.foldl_append]
    obtain ⟨parts, hparts, hforall⟩ := evaluations_dependencies order limit d.dependencies r
    obtain ⟨own, hown, -, howned⟩ := evaluations_resolve d limit
      ((d.dependencies.filterMap (Directive.find? order)).foldl (fun r d => resolve d limit r) r)
    refine ⟨parts.flatten ++ own, ?_, parts, own, rfl, hforall, howned⟩
    rw [List.foldl_cons, List.foldl_nil, hown, hparts, List.append_assoc]

/-- Visiting directives adds a block for each. -/
theorem evaluations_visits (order : List (Directive σ)) (limit : Nat) (ds : List (Directive σ))
    (r : Rendering σ) :
    ∃ blocks, (ds.foldl (visit order limit) r).evaluations = r.evaluations ++ blocks.flatten ∧
      List.Forall₂ (IsBlock order) ds blocks := by
  induction ds generalizing r with
  | nil => exact ⟨[], by simp, .nil⟩
  | cons d ds ih =>
    obtain ⟨block, hblock, hd⟩ := evaluations_visit order limit r d
    obtain ⟨blocks, hblocks, hds⟩ := ih (visit order limit r d)
    refine ⟨block :: blocks, ?_, .cons hd hds⟩
    rw [List.foldl_cons, hblocks, hblock, List.flatten_cons, List.append_assoc]

theorem evaluations_subset_visits (order : List (Directive σ)) (limit : Nat)
    (ds : List (Directive σ)) (r : Rendering σ) :
    r.evaluations ⊆ (ds.foldl (visit order limit) r).evaluations := by
  obtain ⟨blocks, hblocks, -⟩ := evaluations_visits order limit ds r
  rw [hblocks]
  exact List.subset_append_left _ _

/-! ## §3 The whole journal -/

theorem evaluationOrder_nil (builtin : List (Directive σ)) : evaluationOrder [] builtin = builtin := by
  simp [evaluationOrder]

theorem render_nil (builtin : List (Directive σ)) (limit : Nat) (template : String) (seed : Context)
    (state : σ) : render [] builtin limit template seed state =
      renderIn builtin limit template seed state := by
  rw [render, evaluationOrder_nil]

/-- A rendering before the first visit. -/
def startIn (order : List (Directive σ)) (template : String) (seed : Context) (state : σ) :
    Rendering σ :=
  ⟨applySeed order seed template, seed, state, []⟩

theorem resolve_of_not_mentioned {limit : Nat} {r : Rendering σ} {d : Directive σ}
    (h : ∀ t ∈ tokens r.text, t.name ≠ d.name) : resolve d limit r = r := by
  cases limit with
  | zero => rfl
  | succ limit =>
    rw [resolve]
    split
    · rfl
    · rename_i t nested hfirst
      exact absurd (name_of_firstNamed hfirst) (h t (mem_tokens_of_firstNamed hfirst))

/-- A directive without tokens in the text is passed over. -/
theorem visit_of_not_mentioned {order : List (Directive σ)} {limit : Nat} {r : Rendering σ}
    {d : Directive σ} (h : ∀ t ∈ tokens r.text, t.name ≠ d.name) : visit order limit r d = r := by
  have hmentions : mentions r.text d.name = false := by
    rw [← Bool.not_eq_true, mentions_iff]
    rintro ⟨t, ht, hname⟩
    exact h t ht hname
  rw [visit, hmentions]
  rfl

theorem visits_of_not_mentioned {order ds : List (Directive σ)} {limit : Nat} {r : Rendering σ}
    (h : ∀ d ∈ ds, ∀ t ∈ tokens r.text, t.name ≠ d.name) :
    ds.foldl (visit order limit) r = r := by
  induction ds with
  | nil => rfl
  | cons d ds ih =>
    rw [List.foldl_cons, visit_of_not_mentioned (h d List.mem_cons_self)]
    exact ih fun d hd => h d (List.mem_cons_of_mem _ hd)

/-- Where all tokens are those of one directive and its visit leaves none, only that visit matters. -/
theorem visits_of_only {order ds : List (Directive σ)} {limit : Nat} {r : Rendering σ}
    (hnd : (ds.map (·.name)).Nodup) {d : Directive σ} (hd : d ∈ ds)
    (honly : ∀ t ∈ tokens r.text, t.name = d.name)
    (hdone : tokens (visit order limit r d).text = []) :
    ds.foldl (visit order limit) r = visit order limit r d := by
  obtain ⟨before, after, rfl⟩ := List.append_of_mem hd
  rw [List.map_append, List.map_cons, List.nodup_append] at hnd
  have hbefore : before.foldl (visit order limit) r = r := by
    refine visits_of_not_mentioned fun d' hd' t ht hname => ?_
    exact hnd.2.2 _ (List.mem_map_of_mem hd') _ List.mem_cons_self (hname.symm.trans (honly t ht))
  rw [List.foldl_append, hbefore, List.foldl_cons, visits_of_not_mentioned (by simp [hdone])]

/-- A template is rendered by visiting all directives; where it has no tokens that does nothing. -/
theorem renderIn_eq (order : List (Directive σ)) (limit : Nat) (template : String) (seed : Context)
    (state : σ) : renderIn order limit template seed state =
      order.foldl (visit order limit) (startIn order template seed state) := by
  cases htokens : hasTokens template with
  | true => simp [renderIn, htokens, startIn]
  | false =>
    have hnone : tokens template = [] := by
      by_contra hne
      rw [hasTokens_iff.2 hne] at htokens
      exact absurd htokens (by simp)
    have hstart : startIn order template seed state = ⟨template, seed, state, []⟩ := by
      rw [startIn, applySeed, hnone, List.filterMap_nil, keepOuter, splice_nil]
    rw [hstart, visits_of_not_mentioned (by simp [hnone])]
    simp [renderIn, htokens]

/-- The journal of a rendering is a block for each directive, one after the other. -/
theorem evaluations_renderIn (order : List (Directive σ)) (limit : Nat) (template : String)
    (seed : Context) (state : σ) :
    ∃ blocks, (renderIn order limit template seed state).evaluations = blocks.flatten ∧
      List.Forall₂ (IsBlock order) order blocks := by
  rw [renderIn_eq]
  exact evaluations_visits order limit order (startIn order template seed state)

end Stencil.Engine
