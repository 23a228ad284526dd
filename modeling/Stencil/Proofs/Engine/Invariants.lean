import Stencil.Proofs.Engine.Tracking

/-!
# Invariants of a Rendering

What every evaluation keeps, for a token that is found in the text, a rendering keeps.  While a rendering
is tracked, what is found is the head of a directive's name that comes first in what is left of the
layout.

Main statements: `renderIn_induction` and `tracks_induction`.
-/

namespace Stencil.Engine

open Stencil.Text Template

variable {α σ : Type}

/-! ## §1 What evaluations keep -/

section Induction

variable {P : Rendering σ → Prop}

/-- What the evaluations of a directive keep, working it off keeps. -/
theorem resolve_induction {d : Directive σ}
    (hstep : ∀ r token nested, P r → firstNamed r.text d.name = some (token, nested) →
      P (r.step d token)) (limit : Nat) {r : Rendering σ} (h : P r) : P (resolve d limit r) := by
  induction limit generalizing r with
  | zero => exact h
  | succ limit ih =>
    rw [resolve]
    split
    · exact h
    · rename_i token nested hfirst
      exact ih (hstep r token nested h hfirst)

/-- What working off directives keeps, visits keep. -/
theorem visits_loops {order ds : List (Directive σ)} {limit : Nat}
    (hloop : ∀ d ∈ ds, ∀ d' ∈ worklist order d, ∀ r, P r → P (resolve d' limit r))
    {r : Rendering σ} (h : P r) : P (ds.foldl (visit order limit) r) := by
  refine List.foldlRecOn ds (visit order limit) h fun r hr d hd => ?_
  unfold visit
  split
  · exact hr
  · exact List.foldlRecOn (worklist order d) _ hr fun r hr d' hd' => hloop d hd d' hd' r hr

/-- What the evaluations of all that is worked off keep, visits keep. -/
theorem visits_induction {order ds : List (Directive σ)}
    (hstep : ∀ d ∈ ds, ∀ d' ∈ worklist order d, ∀ r token nested, P r →
      firstNamed r.text d'.name = some (token, nested) → P (r.step d' token))
    (limit : Nat) {r : Rendering σ} (h : P r) : P (ds.foldl (visit order limit) r) :=
  visits_loops (fun d hd d' hd' _ hr => resolve_induction (hstep d hd d' hd') limit hr) h

/-- What the evaluations of all directives keep, a rendering keeps. -/
theorem renderIn_induction {order : List (Directive σ)} {limit : Nat} {template : String}
    {seed : Context} {state : σ} (hstart : P (startIn order template seed state))
    (hstep : ∀ d ∈ order, ∀ r token nested, P r →
      firstNamed r.text d.name = some (token, nested) → P (r.step d token)) :
    P (renderIn order limit template seed state) := by
  rw [renderIn_eq]
  exact visits_induction (fun d hd d' hd' => hstep d' (mem_of_mem_worklist hd hd')) limit hstart

/-- Only directives of the order are evaluated. -/
theorem directive_mem_of_mem_evaluations {order : List (Directive σ)} {limit : Nat} {template : String}
    {seed : Context} {state : σ} {e : Evaluation σ}
    (he : e ∈ (renderIn order limit template seed state).evaluations) : e.directive ∈ order := by
  refine renderIn_induction (P := fun r => ∀ e ∈ r.evaluations, e.directive ∈ order) ?_ ?_ e he
  · simp [startIn, Rendering.evaluations]
  · intro d hd r token _ hr _ e he
    rcases mem_evaluations_step.1 he with he | rfl
    · exact hr e he
    · exact hd

end Induction

/-! ## §2 What evaluations keep while a rendering is tracked -/

variable [DecidableEq α]

section Tracked

variable {order : List (Directive σ)} {seed : Context} {l : Layout α} (hnd : l.tags.Nodup)
  {template : String} (hl : template.toList = l.write) {limit : Nat} {state : σ}
  (hseed : ∀ h ∈ l.heads, ∀ s, seedText? order seed h.opening.name = some s → BraceFree s.toList)
  {Q : Rendering σ → Filling α → Prop}
  (hstart : Q (startIn order template seed state) (seedFilling l order seed))
  (hstep : ∀ d ∈ order, ∀ r u head pos text, Tracks order seed l r u → Q r u →
    (head, pos) ∈ (l.fill u).marks 0 → (l.fill u).firstNamed d.name = some head →
    (⟨d, head.token pos, r.context, r.state⟩ : Evaluation σ).outcome.text = .ofList text.1 →
    Q (r.step d (head.token pos)) (u.then (resultFilling (l.fill u) d head text)))
include hnd hl hseed hstart hstep

/-- What every evaluation keeps in a tracked rendering, for a head of what is left of the layout, a
rendering keeps, if results hold no braces as long as it is in order. -/
theorem tracks_induction_while (InOrder : Rendering σ → Prop)
    (hback : ∀ r d t, InOrder (r.step d t) → InOrder r)
    (hplain : ∀ d ∈ order, ∀ r u head pos, Tracks order seed l r u → Q r u →
      (head, pos) ∈ (l.fill u).marks 0 → (l.fill u).firstNamed d.name = some head →
      InOrder (r.step d (head.token pos)) →
      BraceFree (⟨d, head.token pos, r.context, r.state⟩ : Evaluation σ).outcome.text.toList)
    (hall : InOrder (renderIn order limit template seed state)) :
    ∃ u, Tracks order seed l (renderIn order limit template seed state) u ∧
      Q (renderIn order limit template seed state) u := by
  -- The invariant: as long as it is in order, there is such a filling.
  have hinv : InOrder (renderIn order limit template seed state) →
      ∃ u, Tracks order seed l (renderIn order limit template seed state) u ∧
        Q (renderIn order limit template seed state) u := by
    refine renderIn_induction
      (P := fun r => InOrder r → ∃ u, Tracks order seed l r u ∧ Q r u) ?_ ?_
    · exact fun _ => ⟨_, (worked_startIn hnd hl state hseed).toTracks, hstart⟩
    · intro d hd r token nested ih hfirst hinOrder
      obtain ⟨u, htracks, hq⟩ := ih (hback r d token hinOrder)
      have hlayout := firstNamed_write d.name htracks.text
      cases hhead : (l.fill u).firstNamed d.name with
      | none =>
        rw [hhead] at hlayout
        exact absurd (hlayout.symm.trans hfirst) (by simp)
      | some head =>
        rw [hhead] at hlayout
        obtain ⟨pos, nested', hmark, hlayout⟩ := hlayout
        obtain ⟨rfl, rfl⟩ := Prod.mk.inj (Option.some.inj (hlayout.symm.trans hfirst))
        have hfree := hplain d hd r u head pos htracks hq hmark hhead hinOrder
        obtain ⟨text, htext⟩ : ∃ text : PlainText,
            (⟨d, head.token pos, r.context, r.state⟩ : Evaluation σ).outcome.text =
              .ofList text.1 := ⟨⟨_, hfree⟩, by simp⟩
        exact ⟨_, (htracks.step hnd hd hmark (mem_of_firstNamed hhead).2 htext).1,
          hstep d hd r u head pos text htracks hq hmark hhead htext⟩
  exact hinv hall

/-- So it is if no result holds a brace. -/
theorem tracks_induction
    (hfree : ∀ e ∈ (renderIn order limit template seed state).evaluations,
      BraceFree e.outcome.text.toList) :
    ∃ u, Tracks order seed l (renderIn order limit template seed state) u ∧
      Q (renderIn order limit template seed state) u := by
  refine tracks_induction_while hnd hl hseed hstart hstep
    (fun r => ∀ e ∈ r.evaluations, BraceFree e.outcome.text.toList) ?_ ?_ hfree
  · exact fun r d t hall e he => hall e (evaluations_subset_step r d t he)
  · exact fun d _ r _ head pos _ _ _ _ hall => hall _ (last_mem_evaluations_step r d _)

end Tracked

/-- What working off a directive keeps in a tracked rendering, a rendering keeps, if no result holds a
brace and as many evaluations are allowed as there are tokens. -/
theorem loops_induction {order : List (Directive σ)} {seed : Context} {l : Layout α}
    (hnd : l.tags.Nodup) {template : String} (hl : template.toList = l.write) {limit : Nat}
    (hlimit : l.heads.length ≤ limit) {state : σ}
    (hseed : ∀ h ∈ l.heads, ∀ s, seedText? order seed h.opening.name = some s → BraceFree s.toList)
    {P : Rendering σ → Prop} (hstart : P (startIn order template seed state))
    (hloop : ∀ d ∈ order, ∀ r u, Worked order seed l r u → P r →
      (∀ e ∈ (resolve d limit r).evaluations, BraceFree e.outcome.text.toList) → P (resolve d limit r))
    (hfree : ∀ e ∈ (renderIn order limit template seed state).evaluations,
      BraceFree e.outcome.text.toList) : P (renderIn order limit template seed state) := by
  have hinv : (∀ e ∈ (renderIn order limit template seed state).evaluations,
      BraceFree e.outcome.text.toList) →
        (∃ u, Worked order seed l (renderIn order limit template seed state) u) ∧
          P (renderIn order limit template seed state) := by
    rw [renderIn_eq]
    refine visits_loops (P := fun r => (∀ e ∈ r.evaluations, BraceFree e.outcome.text.toList) →
      (∃ u, Worked order seed l r u) ∧ P r) (fun d hd d' hd' r ih hfree => ?_)
      fun _ => ⟨⟨_, worked_startIn hnd hl state hseed⟩, hstart⟩
    have hmem := mem_of_mem_worklist hd hd'
    obtain ⟨⟨u, hworked⟩, hr⟩ := ih fun e he => hfree e (evaluations_subset_resolve d' limit r he)
    obtain ⟨v, hv, -⟩ := hworked.resolve hnd hmem hlimit hfree
    exact ⟨⟨_, hv⟩, hloop d' hmem r u hworked hr hfree⟩
  exact (hinv hfree).2

end Stencil.Engine
