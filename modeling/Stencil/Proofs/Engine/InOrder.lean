import Stencil.Proofs.Engine.Journal
import Stencil.Proofs.Engine.Stepping
import Stencil.Proofs.Store.Backends
import Stencil.Proofs.Template.Unnested

/-!
# Tokens Worked Off in Order

Where no token stands in another and no result holds a brace, working off a directive evaluates it
once for each of its tokens, in the order of the text.  So what a rendering does to the state is what
the evaluations do one after the other.

Main statement: `resolve_in_order`.
-/

namespace Stencil.Engine

open Stencil.Text Store Template

variable {α σ : Type}

/-! ## §1 The tokens of one directive -/

/-- A directive gives a text alone, which depends on the token but not on where it stands. -/
def Says (d : Directive σ) (act : Head α → Action Failure σ String) : Prop :=
  ∀ h pos ctx, h.opening.name = d.name →
    d.apply (h.token pos) ctx = (do return .ofText (← act h))

theorem outcome_of_says {d : Directive σ} {act : Head α → Action Failure σ String} (h : Says d act)
    {head : Head α} (hname : head.opening.name = d.name) (pos : Nat) (ctx : Context) {s s' : σ}
    {text : String} (hact : act head s = .ok text s') :
    (⟨d, head.token pos, ctx, s⟩ : Evaluation σ).outcome = .ofText text ∧
      (⟨d, head.token pos, ctx, s⟩ : Evaluation σ).after = s' := by
  have happly : d.apply (head.token pos) ctx s = .ok (.ofText text) s' := by
    rw [h head pos ctx hname, bind_of_ok hact]
    rfl
  exact ⟨outcome_of_apply happly, after_of_apply happly⟩

variable [DecidableEq α]

/-- Of some heads of a layout, all but the first are left when that is filled alone. -/
theorem filter_resultFilling {l : Layout α} (hnd : l.tags.Nodup) {d : Directive σ}
    (hd : d.constant = false) {head : Head α} {heads : List (Head α)} (text : PlainText)
    (hname : head.opening.name = d.name) (hheads : (head :: heads).Sublist l.heads) :
    ((head :: heads).filter fun h => (resultFilling l d head text h.tag).isNone) = heads := by
  have hnd' := (hheads.map Head.tag).nodup hnd
  rw [List.map_cons, List.nodup_cons] at hnd'
  have hmem : ∀ h ∈ head :: heads, h ∈ l.heads := fun h hh => hheads.subset hh
  have hfirst := (resultFilling_spec hnd (hmem head List.mem_cons_self) hname text).1
  rw [List.filter_cons_of_neg (by simp [hfirst]), List.filter_eq_self]
  intro h hh
  have hne : ¬alike d head h = true := by
    rw [alike_of_not_constant hd]
    exact fun htag => hnd'.1 (htag ▸ List.mem_map_of_mem hh)
  rw [resultFilling, fillingBy_tag hnd _ (hmem h (List.mem_cons_of_mem _ hh)), if_neg hne]
  rfl

/-- Filling the first token of a name alone assigns its text to it. -/
theorem assigns_resultFilling {l : Layout α} (hnd : l.tags.Nodup) {d : Directive σ}
    (hd : d.constant = false) {head : Head α} (hmem : head ∈ l.heads)
    (hname : head.opening.name = d.name) (plain : PlainText) :
    (resultFilling l d head plain).Assigns [head] [.ofList plain.1] := by
  have hfilled := (resultFilling_spec hnd hmem hname plain).1
  refine ⟨by rw [List.map_singleton, Filling.textAt_of_some hfilled], by simp [hfilled], ?_⟩
  intro a ha
  obtain ⟨text, hv⟩ := Option.ne_none_iff_exists'.1 ha
  obtain ⟨h, hh, htag, hg⟩ := exists_head_of_fillingBy hv
  by_cases halike : alike d head h = true
  · exact ⟨head, List.mem_singleton.2 rfl, ((alike_of_not_constant hd).1 halike).symm.trans htag⟩
  · rw [if_neg halike] at hg
    exact absurd hg (by simp)

/-- An evaluation for the first token puts its text there, and the others are left. -/
theorem step_in_order {l : Layout α} (hnd : l.tags.Nodup) {d : Directive σ}
    (hapart : l.Apart (· == d.name)) (hd : d.constant = false)
    {act : Head α → Action Failure σ String} (hact : Says d act) {r : Rendering σ}
    (htext : r.text.toList = l.write) {head : Head α} {heads : List (Head α)}
    (hheads : l.named (· == d.name) = head :: heads) {pos : Nat} (hmark : (head, pos) ∈ l.marks 0)
    (hname : head.opening.name = d.name) {text : String} {s' : σ}
    (hrun : act head r.state = .ok text s') (hfree : BraceFree text.toList) :
    ∃ v : Filling α, v.Assigns [head] [text] ∧ (∀ h ∈ heads, v h.tag = none) ∧
      (l.fill v).named (· == d.name) = heads ∧
      (r.step d (head.token pos)).text.toList = (l.fill v).write ∧
      (r.step d (head.token pos)).context = r.context ∧
      (r.step d (head.token pos)).state = s' := by
  obtain ⟨houtcome, hafter⟩ := outcome_of_says hact hname pos r.context hrun
  obtain ⟨plain, rfl⟩ : ∃ plain : PlainText, text = .ofList plain.1 :=
    ⟨⟨text.toList, hfree⟩, by simp⟩
  have hmem : head ∈ l.heads := mem_heads_of_mem_marks hmark
  have hassigns := assigns_resultFilling hnd hd hmem hname plain
  have hleft : (head :: heads).filter (fun h => (resultFilling l d head plain h.tag).isNone) = heads :=
    filter_resultFilling hnd hd plain hname (hheads ▸ List.filter_sublist)
  refine ⟨resultFilling l d head plain, hassigns, fun h hh => ?_, ?_,
    toList_step htext hnd hmark (by rw [houtcome]; rfl), by rw [context_step, houtcome]; rfl, hafter⟩
  · rw [← hleft] at hh
    exact Option.isNone_iff_eq_none.1 (List.mem_filter.1 hh).2
  · rw [named_fill hapart, hheads, hleft]
    -- What is filled has the directive's name, being the first token.
    intro h hh hne
    obtain ⟨h', hh', htag⟩ := hassigns.only _ hne
    rw [← eq_of_tag_eq hnd hmem hh (List.mem_singleton.1 hh' ▸ htag), hname]
    exact beq_self_eq_true d.name

/-- Working off a directive evaluates it once for each of its tokens, in the order of the text. -/
theorem resolve_in_order {l : Layout α} (hnd : l.tags.Nodup) {d : Directive σ}
    (hclear : l.Clear (· == d.name)) (hd : d.constant = false)
    {act : Head α → Action Failure σ String} (hact : Says d act) {heads : List (Head α)}
    {r : Rendering σ} {u : Filling α} (htext : r.text.toList = (l.fill u).write)
    (hheads : (l.fill u).named (· == d.name) = heads) {limit : Nat} (hlimit : heads.length ≤ limit)
    {texts : List String} {s' : σ} (hrun : heads.mapM act r.state = .ok texts s')
    (hfree : ∀ text ∈ texts, BraceFree text.toList) :
    ∃ v : Filling α, v.Assigns heads texts ∧
      (resolve d limit r).text.toList = (l.fill (u.then v)).write ∧
      (resolve d limit r).context = r.context ∧ (resolve d limit r).state = s' := by
  induction heads generalizing r u limit texts with
  | nil =>
    obtain ⟨rfl, rfl⟩ := mapM_nil_eq_ok.1 hrun
    rw [resolve_of_named_nil htext (hclear.fill u).apart hheads]
    exact ⟨fun _ => none, .nil, by rw [Filling.then_none, htext], rfl, rfl⟩
  | cons head heads ih =>
    obtain ⟨text, s₁, texts, hfirstText, hrest, rfl⟩ := mapM_cons_eq_ok.1 hrun
    obtain ⟨limit, rfl⟩ : ∃ n, limit = n + 1 := ⟨limit - 1, by simp at hlimit; omega⟩
    obtain ⟨hfreeFirst, hfree⟩ := List.forall_mem_cons.1 hfree
    have hapart := (hclear.fill u).apart
    obtain ⟨pos, hmark, hname, hnext⟩ := exists_resolve_succ htext hapart hheads
    obtain ⟨v, hv, hnone, hleft, htext', hcontext, rfl⟩ := step_in_order
      ((tags_fill_sublist u l).nodup hnd) hapart hd hact htext hheads hmark hname hfirstText hfreeFirst
    rw [fill_fill] at hleft htext'
    obtain ⟨w, hw, hresolve, hcontext', hstate⟩ := ih htext' hleft
      (show heads.length ≤ limit by simpa using hlimit) hrest hfree
    rw [hnext]
    refine ⟨v.then w, hv.append hw hnone, ?_, hcontext'.trans hcontext, hstate⟩
    rw [hresolve, Filling.then_then]

/-- A visit works off the directive alone, if that has neither result keys nor dependencies. -/
theorem visit_eq_resolve {order : List (Directive σ)} {limit : Nat} {r : Rendering σ}
    {d : Directive σ} (hkeys : d.resultKeys = []) (hdeps : d.dependencies = []) :
    visit order limit r d = resolve d limit r := by
  by_cases hmentions : mentions r.text d.name = true
  · simp [visit, hmentions, Directive.isResolvedIn, hkeys, worklist, hdeps]
  · have hnone : ∀ t ∈ tokens r.text, t.name ≠ d.name := fun t ht hname =>
      hmentions (mentions_iff.2 ⟨t, ht, hname⟩)
    rw [visit_of_not_mentioned hnone, resolve_of_not_mentioned hnone]

end Stencil.Engine
