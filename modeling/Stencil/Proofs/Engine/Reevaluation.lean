import Stencil.Custom
import Stencil.Engine.Scripted
import Stencil.Proofs.Catalog
import Stencil.Proofs.Engine.BraceClean
import Stencil.Proofs.Engine.Broadcast

/-!
# Evaluations Where All Is Resolved

A directive that is resolved when its turn comes is passed over.  Nothing asks again while its tokens are
worked off, or when those of a dependency are.  So a directive is evaluated although its result keys are
resolved, and what they had is replaced:

* for a token that is left by the evaluation that has resolved it, because it is written differently or
  the directive is not constant;
* as a dependency of the directive whose turn it is;
* on its own turn, after a dependency has given its keys their values.

Where a template has no braces but those of its tokens, and nothing that is put in has any, the
evaluations of a directive come one after the other, and there are none if its primary key is seeded.

Main statement: `resolved_evaluations`.
-/

namespace Stencil.Engine

open Stencil.Text Template

variable {α σ : Type}

/-! ## §1 Where the value of a key comes from -/

namespace Evaluation

/-- Whether an evaluation gives a value to a key. -/
def Sets (e : Evaluation σ) (key : String) : Prop := ∃ field ∈ e.outcome.fields, field.1 = key

/-- Whether the value that an evaluation gives to a key resolves it. -/
def Resolves (e : Evaluation σ) (key : String) : Prop :=
  Context.isResolved (Context.merge Dict.empty e.outcome.fields) key = true

end Evaluation

/-- The context that evaluations leave behind. -/
def contextAfter (seed : Context) (es : List (Evaluation σ)) : Context :=
  es.foldl (fun ctx e => Context.merge ctx e.outcome.fields) seed

/-- Whether an evaluation is the last of some that gives a value to a key, and resolves it: those after
it give it none. -/
structure LastGiver (es : List (Evaluation σ)) (key : String) (giver : Evaluation σ)
    (since : List (Evaluation σ)) : Prop where
  /-- It is one of them. -/
  made : giver :: since <:+ es
  /-- Its value resolves the key. -/
  resolves : giver.Resolves key
  /-- That value stands. -/
  last : ∀ e ∈ since, ¬e.Sets key

theorem isResolved_congr {ctx ctx' : Context} {key : String} (h : ctx.get? key = ctx'.get? key) :
    ctx.isResolved key = ctx'.isResolved key := by
  rw [Context.isResolved, Context.isResolved, h]

theorem isResolved_merge_of_sets {e : Evaluation σ} {key : String} (h : e.Sets key) (ctx : Context) :
    Context.isResolved (Context.merge ctx e.outcome.fields) key = true ↔ e.Resolves key := by
  rw [Evaluation.Resolves, isResolved_congr]
  exact Dict.get?_insertAll_of_mem h

theorem isResolved_merge_of_not_sets {e : Evaluation σ} {key : String} (h : ¬e.Sets key) (ctx : Context) :
    Context.isResolved (Context.merge ctx e.outcome.fields) key = ctx.isResolved key :=
  isResolved_congr (Dict.get?_insertAll_of_ne fun field hfield heq => h ⟨field, hfield, heq⟩)

theorem sets_of_resolves {e : Evaluation σ} {key : String} (h : e.Resolves key) : e.Sets key := by
  by_contra hsets
  rw [Evaluation.Resolves, isResolved_merge_of_not_sets hsets] at h
  exact absurd h (by simp [Context.isResolved, Dict.get?, Dict.empty])

theorem contextAfter_append (seed : Context) (es es' : List (Evaluation σ)) :
    contextAfter seed (es ++ es') = contextAfter (contextAfter seed es) es' := List.foldl_append

theorem lastGiver_concat {es : List (Evaluation σ)} {e : Evaluation σ} {key : String}
    {giver : Evaluation σ} {since : List (Evaluation σ)} : LastGiver (es ++ [e]) key giver since ↔
      (giver = e ∧ since = [] ∧ e.Resolves key) ∨
        (¬e.Sets key ∧ ∃ since', since = since' ++ [e] ∧ LastGiver es key giver since') := by
  constructor
  · rintro ⟨hmade, hresolves, hlast⟩
    obtain hnil | ⟨made, heq, hsuffix⟩ := List.suffix_concat_iff.1 hmade
    · exact absurd hnil (by simp)
    · cases made with
      | nil =>
        obtain ⟨rfl, rfl⟩ := List.cons_eq_cons.1 heq
        exact .inl ⟨rfl, rfl, hresolves⟩
      | cons giver' since' =>
        obtain ⟨rfl, rfl⟩ := List.cons_eq_cons.1 heq
        exact .inr ⟨hlast e (by simp), since', rfl, hsuffix, hresolves,
          fun e' he' => hlast e' (List.mem_append_left _ he')⟩
  · rintro (⟨rfl, rfl, hresolves⟩ | ⟨hsets, since', rfl, hmade, hresolves, hlast⟩)
    · exact ⟨List.suffix_append es [giver], hresolves, by simp⟩
    · refine ⟨List.suffix_concat_iff.2 (.inr ⟨giver :: since', rfl, hmade⟩), hresolves, fun e' he' => ?_⟩
      rcases List.mem_append.1 he' with he' | he'
      · exact hlast e' he'
      · rwa [List.mem_singleton.1 he']

/-- A key is resolved by the last evaluation that gives it a value, or else by the seed. -/
theorem isResolved_contextAfter_iff {seed : Context} {es : List (Evaluation σ)} {key : String} :
    Context.isResolved (contextAfter seed es) key = true ↔
      (∃ giver since, LastGiver es key giver since) ∨
        (Context.isResolved seed key = true ∧ ∀ e ∈ es, ¬e.Sets key) := by
  induction es using List.reverseRecOn with
  | nil =>
    have hnone : ¬∃ giver since, LastGiver ([] : List (Evaluation σ)) key giver since := by
      rintro ⟨giver, since, hmade, -⟩
      exact absurd (List.suffix_nil.1 hmade) (by simp)
    simp [contextAfter, hnone]
  | append_singleton es e ih =>
    rw [contextAfter_append]
    change Context.isResolved (Context.merge (contextAfter seed es) e.outcome.fields) key = true ↔ _
    by_cases hsets : e.Sets key
    · -- Its value replaces any that was there.
      simp [isResolved_merge_of_sets hsets, lastGiver_concat, hsets, or_imp, forall_and]
    · have hresolves : ¬e.Resolves key := fun h => hsets (sets_of_resolves h)
      rw [isResolved_merge_of_not_sets hsets, ih]
      simp [lastGiver_concat, hsets, hresolves, or_imp, forall_and]

/-! ## §2 Contexts of evaluations -/

/-- Whether every evaluation of a rendering was made in the context that those before it have left. -/
structure Threaded (seed : Context) (r : Rendering σ) : Prop where
  /-- So is the context in the end. -/
  context : r.context = contextAfter seed r.evaluations
  /-- The context of each is that of the evaluations before it. -/
  earlier : ∀ es e, es ++ [e] <+: r.evaluations → e.context = contextAfter seed es

theorem Threaded.step {seed : Context} {r : Rendering σ} (h : Threaded seed r) (d : Directive σ)
    (token : Token) : Threaded seed (r.step d token) := by
  refine ⟨?_, fun es e hes => ?_⟩
  · rw [evaluations_step, contextAfter_append, ← h.context]
    rfl
  · rw [evaluations_step, List.prefix_concat_iff] at hes
    rcases hes with heq | hes
    · obtain ⟨hes, he⟩ := List.append_inj' heq rfl
      rw [hes, List.singleton_inj.1 he, ← h.context]
    · exact h.earlier es e hes

theorem threaded_visits (order ds : List (Directive σ)) (limit : Nat) (template : String)
    (seed : Context) (state : σ) :
    Threaded seed (ds.foldl (visit order limit) (startIn order template seed state)) := by
  refine visits_induction (fun d _ d' _ r token _ h _ => h.step d' token) limit ⟨rfl, fun es e hes => ?_⟩
  exact absurd (List.prefix_nil.1 hes) (by simp)

theorem threaded_render (custom builtin : List (Directive σ)) (limit : Nat) (template : String)
    (seed : Context) (state : σ) :
    Threaded seed (render custom builtin limit template seed state) := by
  rw [render, renderIn_eq]
  exact threaded_visits _ _ limit template seed state

/-! ## §3 Turns -/

/-- The rendering that is found after the turns of some directives. -/
def afterTurns (order before : List (Directive σ)) (limit : Nat) (template : String) (seed : Context)
    (state : σ) : Rendering σ :=
  before.foldl (visit order limit) (startIn order template seed state)

/-- On its own turn a directive is evaluated where it is resolved only if an evaluation before that, on
the same turn, has given a value to a key that was not resolved. -/
theorem exists_sets_of_isResolvedIn {order before : List (Directive σ)} {limit : Nat}
    {template : String} {seed : Context} {state : σ} {d : Directive σ} {earlier : List (Evaluation σ)}
    {e : Evaluation σ}
    (hturn : (afterTurns order before limit template seed state).evaluations ++ (earlier ++ [e]) <+:
      (visit order limit (afterTurns order before limit template seed state) d).evaluations)
    (hown : e.directive = d) (hresolved : e.directive.isResolvedIn e.context = true) :
    ∃ key ∈ d.resultKeys,
      Context.isResolved (afterTurns order before limit template seed state).context key = false ∧
        ∃ e' ∈ earlier, e'.Sets key := by
  have hfound : Threaded seed (afterTurns order before limit template seed state) :=
    threaded_visits order before limit template seed state
  have hvisit : Threaded seed
      (visit order limit (afterTurns order before limit template seed state) d) := by
    have hconcat := threaded_visits order (before ++ [d]) limit template seed state
    rwa [List.foldl_append] at hconcat
  generalize afterTurns order before limit template seed state = found at hturn hfound hvisit ⊢
  have hcontext := hvisit.earlier (found.evaluations ++ earlier) e (by rwa [List.append_assoc])
  rw [contextAfter_append, ← hfound.context] at hcontext
  rw [hown, hcontext] at hresolved
  obtain ⟨hkeys, hall⟩ := Bool.and_eq_true_iff.1 hresolved
  -- The turn has begun, so a key was missing.
  obtain ⟨key, hkey, hmissing⟩ : ∃ key ∈ d.resultKeys, found.context.isResolved key = false := by
    by_contra hnone
    have hskip : d.isResolvedIn found.context = true := by
      refine Bool.and_eq_true_iff.2 ⟨hkeys, List.all_eq_true.2 fun key hkey => ?_⟩
      rw [← Bool.not_eq_false]
      exact fun hmissing => hnone ⟨key, hkey, hmissing⟩
    rw [visit, hskip, Bool.or_true, if_pos rfl] at hturn
    have hlength := hturn.length_le
    rw [List.length_append, List.length_append, List.length_singleton] at hlength
    omega
  refine ⟨key, hkey, hmissing, ?_⟩
  rcases isResolved_contextAfter_iff.1 (List.all_eq_true.1 hall key hkey) with
    ⟨giver, since, hgiver⟩ | ⟨hfound, -⟩
  · exact ⟨giver, hgiver.made.subset List.mem_cons_self, sets_of_resolves hgiver.resolves⟩
  · rw [hmissing] at hfound
    exact absurd hfound (by simp)

/-! ## §4 Directives that are worked off once -/

/-- Whether the evaluations of a directive come one after the other, and those of a constant one are for
tokens that are written differently, if none of its tokens stands in another. -/
def Together (template : String) (es : List (Evaluation σ)) : Prop :=
  ∀ e since e', e :: (since ++ [e']) <:+: es → e.directive.name = e'.directive.name →
    (∀ e'' ∈ since, e''.directive.name = e'.directive.name) ∧
      (e'.directive.constant = true → (∀ piece ∈ pieces template, piece.Apart e'.directive.name) →
        e.token.raw ≠ e'.token.raw)

/-- A part of a list that is put together is in the first half, in the second, or across. -/
theorem infix_append_cases {β : Type} {x y : β} {between old new : List β}
    (h : x :: (between ++ [y]) <:+: old ++ new) :
    x :: (between ++ [y]) <:+: old ∨ (x ∈ old ∧ y ∈ new) ∨ x :: (between ++ [y]) <:+: new := by
  obtain ⟨before, after, heq⟩ := h
  rw [← List.cons_append, ← List.append_assoc before] at heq
  obtain ⟨rest, rfl, -⟩ | ⟨new', heq', rfl⟩ := List.append_eq_append_iff.1 heq
  · exact .inl ⟨before, rest, by simp⟩
  · rcases List.eq_nil_or_concat' new' with rfl | ⟨new', y', rfl⟩
    · exact .inl ⟨before, [], by simpa using heq'⟩
    · rw [← List.append_assoc old] at heq'
      obtain ⟨hinner, hy⟩ := List.append_inj' heq' rfl
      obtain rfl := List.singleton_inj.1 hy
      obtain ⟨part, rfl, hpart⟩ | ⟨part, rfl, rfl⟩ := List.append_eq_append_iff.1 hinner
      · cases part with
        | nil =>
          obtain rfl : x :: between = new' := hpart
          exact .inr (.inr ⟨[], after, by simp⟩)
        | cons x' part =>
          obtain ⟨rfl, -⟩ := List.cons_eq_cons.1 hpart
          exact .inr (.inl ⟨by simp, by simp⟩)
      · exact .inr (.inr ⟨part, after, by simp⟩)

section Clean

variable [DecidableEq α] {order : List (Directive σ)} {seed : Context} {l : Layout α}
  (hnd : l.tags.Nodup) {template : String} (hl : template.toList = l.write) {limit : Nat} {state : σ}
  (hseed : ∀ h ∈ l.heads, ∀ s, seedText? order seed h.opening.name = some s → BraceFree s.toList)
  (hfree : ∀ e ∈ (renderIn order limit template seed state).evaluations,
    BraceFree e.outcome.text.toList)
include hnd hl hseed hfree

/-- No directive is evaluated for whose tokens the seed has a text. -/
theorem seedText?_of_mem_evaluations :
    ∀ e ∈ (renderIn order limit template seed state).evaluations,
      seedText? order seed e.directive.name = none := by
  refine (tracks_induction hnd hl hseed (Q := fun r _ => ∀ e ∈ r.evaluations,
    seedText? order seed e.directive.name = none) ?_ ?_ hfree).elim fun _ h => h.2
  · simp [startIn, Rendering.evaluations]
  · intro d _ r u head pos _ htracks hr _ hfirst _ e he
    rcases mem_evaluations_step.1 he with he | rfl
    · exact hr e he
    · obtain ⟨hmem, hname⟩ := mem_of_firstNamed hfirst
      rw [← hname]
      exact htracks.seeded head hmem

theorem together_renderIn (hlimit : l.heads.length ≤ limit) :
    Together template (renderIn order limit template seed state).evaluations := by
  refine loops_induction hnd hl hlimit hseed (P := fun r => Together template r.evaluations) ?_ ?_ hfree
  · intro e since e' hinfix
    exact absurd (List.infix_nil.1 hinfix) (by simp)
  · intro d hd r u hworked hr hplain e since e' hinfix hname
    obtain ⟨es, hes, -, howned⟩ := evaluations_resolve d limit r
    rw [hes] at hinfix
    rcases infix_append_cases hinfix with hold | ⟨hold, hnew⟩ | hnew
    · exact hr e since e' hold hname
    · -- No token is left of a directive that was evaluated before.
      rw [(howned e' hnew).1] at hname
      have hnone := hworked.gone_iff.1 (hname ▸ hworked.worked e hold)
      rw [resolve_of_not_mentioned hnone] at hes
      rw [List.self_eq_append_right.1 hes] at hnew
      exact absurd hnew List.not_mem_nil
    · have hmem {e'' : Evaluation σ} (he : e'' ∈ e :: (since ++ [e'])) : e''.directive = d :=
        (howned e'' (hnew.subset he)).1
      have hlast : e'.directive = d := hmem (by simp)
      rw [hlast]
      refine ⟨fun e'' he => by rw [hmem (by simp [he])], fun hconstant hapart => ?_⟩
      have hraws := nodup_raws_of_layout (hlast ▸ hconstant) ((tags_fill_sublist u l).nodup hnd)
        ((apart_of_pieces hl hapart).fill u) hworked.text
        (Nat.le_trans (length_heads_fill_le u l) hlimit) hes
        fun e he => hplain e (by rw [hes]; exact List.mem_append_right _ he)
      have hdiffer := (hnew.sublist.map (·.token.raw)).nodup hraws
      rw [List.map_cons, List.map_append, List.nodup_cons] at hdiffer
      exact fun heq => hdiffer.1 (by simp [heq])

end Clean

/-! ## §5 The rendering -/

/-- Whether the value that a key has when a directive is evaluated was given by this evaluation, with these
in between: on the same turn, if it is one of the same directive. -/
structure GivenBefore (template : String) (earlier : List (Evaluation σ)) (e : Evaluation σ)
    (key : String) (giver : Evaluation σ) (since : List (Evaluation σ)) : Prop
    extends LastGiver earlier key giver since where
  /-- Nothing else was evaluated between two evaluations of a directive. -/
  together : giver.directive.name = e.directive.name →
    ∀ e' ∈ since, e'.directive.name = e.directive.name
  /-- Those of a constant directive were made for tokens that are written differently, if none of its
  tokens stands in another. -/
  different : giver.directive.name = e.directive.name → e.directive.constant = true →
    (∀ piece ∈ pieces template, piece.Apart e.directive.name) → giver.token.raw ≠ e.token.raw

section Rendering

variable {custom builtin : List (Directive σ)} {limit : Nat} {template : String} {seed : Context}
  {state : σ} (hclean : BraceClean template)
  (hseed : ∀ key s, Context.text? seed key = some s → BraceFree s.toList)
  (hfree : ∀ e ∈ (render custom builtin limit template seed state).evaluations,
    BraceFree e.outcome.text.toList)
include hclean hseed hfree

/-- A directive whose primary key is seeded is not evaluated. -/
theorem isResolved_seed_of_mem_evaluations {e : Evaluation σ}
    (he : e ∈ (render custom builtin limit template seed state).evaluations)
    (hfind : Directive.find? (evaluationOrder custom builtin) e.directive.name = some e.directive)
    {key : String} (hkey : key ∈ e.directive.resultKeys.head?) : seed.isResolved key = false := by
  obtain ⟨l, hl, hnd, -, -⟩ := exists_spanned_layout hclean
  have hnone := seedText?_of_mem_evaluations hnd hl (fun _ _ _ => braceFree_of_seedText? hseed) hfree e he
  rw [← Bool.not_eq_true]
  intro hresolved
  obtain ⟨v, hv⟩ := exists_of_isResolved hresolved
  simp [seedText?, hfind, Option.mem_def.1 hkey, hresolved, Context.text?, hv] at hnone

variable (hlimit : (tokens template).length ≤ limit)
include hlimit

/-- A value that stands under a key was given on the same turn, if it was given by the directive itself. -/
theorem givenBefore_of_lastGiver {earlier : List (Evaluation σ)} {e : Evaluation σ}
    (hmade : earlier ++ [e] <+: (render custom builtin limit template seed state).evaluations)
    {key : String} {giver : Evaluation σ} {since : List (Evaluation σ)}
    (h : LastGiver earlier key giver since) : GivenBefore template earlier e key giver since := by
  obtain ⟨l, hl, hnd, hlength, -⟩ := exists_spanned_layout hclean
  have htogether := together_renderIn hnd hl (fun _ _ _ => braceFree_of_seedText? hseed) hfree
    (hlength ▸ hlimit)
  have hinfix : giver :: (since ++ [e]) <:+:
      (render custom builtin limit template seed state).evaluations := by
    obtain ⟨before, rfl⟩ := h.made
    obtain ⟨later, hlater⟩ := hmade
    exact ⟨before, later, by simpa using hlater⟩
  exact ⟨h, fun hname => (htogether giver since e hinfix hname).1,
    fun hname => (htogether giver since e hinfix hname).2⟩

/-- A directive is resolved where it is evaluated if its primary key was given a value before, and the
others were as well or are seeded. -/
theorem isResolvedIn_iff_given {earlier : List (Evaluation σ)} {e : Evaluation σ}
    (hmade : earlier ++ [e] <+: (render custom builtin limit template seed state).evaluations)
    (hfind : Directive.find? (evaluationOrder custom builtin) e.directive.name = some e.directive) :
    e.directive.isResolvedIn e.context = true ↔
      ∃ key keys, e.directive.resultKeys = key :: keys ∧
        (∃ giver since, GivenBefore template earlier e key giver since) ∧
        ∀ key' ∈ keys, (∃ giver since, LastGiver earlier key' giver since) ∨
          (seed.isResolved key' = true ∧ ∀ e' ∈ earlier, ¬e'.Sets key') := by
  have hcontext : e.context = contextAfter seed earlier :=
    (threaded_render custom builtin limit template seed state).earlier earlier e hmade
  have hmem : e ∈ (render custom builtin limit template seed state).evaluations :=
    hmade.subset (List.mem_append_right _ (List.mem_singleton.2 rfl))
  rw [Directive.isResolvedIn, hcontext]
  cases hkeys : e.directive.resultKeys with
  | nil => simp
  | cons key keys =>
    have hunseeded : seed.isResolved key = false :=
      isResolved_seed_of_mem_evaluations hclean hseed hfree hmem hfind (by simp [hkeys])
    have hprimary : Context.isResolved (contextAfter seed earlier) key = true ↔
        ∃ giver since, GivenBefore template earlier e key giver since := by
      rw [isResolved_contextAfter_iff, hunseeded]
      simp only [Bool.false_eq_true, false_and, or_false]
      exact exists_congr fun giver => exists_congr fun since =>
        ⟨givenBefore_of_lastGiver hclean hseed hfree hlimit hmade, GivenBefore.toLastGiver⟩
    have hothers : keys.all (Context.isResolved (contextAfter seed earlier)) = true ↔
        ∀ key' ∈ keys, (∃ giver since, LastGiver earlier key' giver since) ∨
          (seed.isResolved key' = true ∧ ∀ e' ∈ earlier, ¬e'.Sets key') := by
      rw [List.all_eq_true]
      exact forall_congr' fun key' => imp_congr_right fun _ => isResolved_contextAfter_iff
    simp [hprimary, hothers]

end Rendering

/-- **Where a directive is evaluated although it is resolved.**  On the turn of a directive, an evaluation
where all result keys are resolved is that of a dependency, or comes after one on the same turn that has
given a value to a key that was missing when the turn began.  So it is for every template.

Let a template have no braces but those of its tokens, let neither the seeded values nor the results have
any, and let as many evaluations be allowed as there are tokens.  Then a directive is evaluated where it is
resolved exactly if an evaluation before has given its primary key the value that stands, and its other
keys have theirs from such an evaluation or from the seed.  A directive whose primary key is seeded is
never evaluated.  If the value is the directive's own, it comes from the same turn, and from a token that
is written differently if the directive is constant and no token of it stands in another. -/
theorem resolved_evaluations (custom builtin : List (Directive σ)) (limit : Nat) (template : String)
    (seed : Context) (state : σ) :
    (∀ before d after, evaluationOrder custom builtin = before ++ d :: after → ∀ found,
      found = afterTurns (evaluationOrder custom builtin) before limit template seed state →
      ∀ earlier e, found.evaluations ++ (earlier ++ [e]) <+:
          (visit (evaluationOrder custom builtin) limit found d).evaluations →
        e.directive.isResolvedIn e.context = true →
          (e.directive.name ∈ d.dependencies ∧
            Directive.find? (evaluationOrder custom builtin) e.directive.name = some e.directive) ∨
          (e.directive = d ∧ ∃ key ∈ d.resultKeys, found.context.isResolved key = false ∧
            ∃ e' ∈ earlier, e'.Sets key)) ∧
    (BraceClean template → (∀ key s, Context.text? seed key = some s → BraceFree s.toList) →
      (tokens template).length ≤ limit →
      (∀ e ∈ (render custom builtin limit template seed state).evaluations,
        BraceFree e.outcome.text.toList) →
      ∀ earlier e, earlier ++ [e] <+: (render custom builtin limit template seed state).evaluations →
        Directive.find? (evaluationOrder custom builtin) e.directive.name = some e.directive →
          (∀ key ∈ e.directive.resultKeys.head?, seed.isResolved key = false) ∧
          (e.directive.isResolvedIn e.context = true ↔
            ∃ key keys, e.directive.resultKeys = key :: keys ∧
              (∃ giver since, GivenBefore template earlier e key giver since) ∧
              ∀ key' ∈ keys, (∃ giver since, LastGiver earlier key' giver since) ∨
                (seed.isResolved key' = true ∧ ∀ e' ∈ earlier, ¬e'.Sets key'))) := by
  refine ⟨?_, ?_⟩
  · rintro before d after - found rfl earlier e hturn hresolved
    obtain ⟨es, hes, hblock⟩ := evaluations_visit (evaluationOrder custom builtin) limit
      (afterTurns (evaluationOrder custom builtin) before limit template seed state) d
    have hmem : e ∈ es := by
      rw [hes, List.prefix_append_right_inj] at hturn
      exact hturn.subset (List.mem_append_right _ (List.mem_singleton.2 rfl))
    obtain ⟨-, hown | hdependency⟩ := directive_of_isBlock hblock e hmem
    · exact .inr ⟨hown, exists_sets_of_isResolvedIn hturn hown hresolved⟩
    · exact .inl hdependency
  · intro hclean hseed hlimit hfree earlier e hmade hfind
    have hmem : e ∈ (render custom builtin limit template seed state).evaluations :=
      hmade.subset (List.mem_append_right _ (List.mem_singleton.2 rfl))
    exact ⟨fun key hkey => isResolved_seed_of_mem_evaluations hclean hseed hfree hmem hfind hkey,
      isResolvedIn_iff_given hclean hseed hfree hlimit hmade hfind⟩

/-- Two tokens of one directive that are written differently: the first evaluation has given the value that
is there when the second is made. -/
theorem resolved_evaluations_differing :
    let scripted : Scripted := ⟨"x", true, ["x"], [], ["one", "two"], none, true, Dict.empty, false⟩
    let template := "{{x a}} {{x b}}"
    let r := render [] [scripted.directive (σ := Unit) 0] 2 template Dict.empty ((), [0])
    BraceClean template ∧ r.text = "one two" ∧
      ∃ first second, r.evaluations = [first, second] ∧
        second.directive.isResolvedIn second.context = true ∧
          ∃ giver since, GivenBefore template [first] second "x" giver since := by
  intro scripted template r
  have hclean : BraceClean template := by decide +kernel
  have hseed : ∀ key s, Context.text? Dict.empty key = some s → BraceFree s.toList :=
    fun key s hs => absurd hs (by simp [Context.text?, Dict.get?, Dict.empty])
  have hall := (resolved_evaluations [] [scripted.directive (σ := Unit) 0] 2 template Dict.empty
    ((), [0])).2 hclean hseed (by decide +kernel) (by decide +kernel)
  have hr : r = render [] [scripted.directive (σ := Unit) 0] 2 template Dict.empty ((), [0]) := rfl
  have htext : r.text = "one two" := by decide +kernel
  have hresolved : (r.evaluations.map fun e => e.directive.isResolvedIn e.context) = [false, true] := by
    decide +kernel
  have hdirective : ∀ e ∈ r.evaluations, e.directive = scripted.directive 0 := fun e he =>
    List.mem_singleton.1 (directive_mem_of_mem_evaluations (by rwa [hr, render_nil] at he))
  rw [← hr] at hall
  clear_value r
  obtain ⟨first, second, hes⟩ : ∃ first second, r.evaluations = [first, second] :=
    List.length_eq_two.1 (by simpa using congrArg List.length hresolved)
  rw [hes] at hdirective hresolved hall
  have hsecond : second.directive = scripted.directive 0 := hdirective second (by simp)
  have hlast : second.directive.isResolvedIn second.context = true :=
    (List.cons_eq_cons.1 (List.cons_eq_cons.1 hresolved).2).1
  obtain ⟨-, hiff⟩ := hall [first] second (List.prefix_refl _) (by rw [hsecond]; rfl)
  obtain ⟨key, keys, hkeys, hgiven, -⟩ := hiff.1 hlast
  obtain ⟨rfl, -⟩ : "x" = key ∧ [] = keys := by
    rw [hsecond] at hkeys
    exact List.cons_eq_cons.1 hkeys
  exact ⟨hclean, htext, first, second, hes, hlast, hgiven⟩

theorem exists_resolved_of_any {es : List (Evaluation σ)} {name : String}
    (h : (es.any fun e => e.directive.name == name && e.directive.isResolvedIn e.context) = true) :
    ∃ e ∈ es, e.directive.name = name ∧ e.directive.isResolvedIn e.context = true := by
  obtain ⟨e, he, hboth⟩ := List.any_eq_true.1 h
  obtain ⟨hname, hresolved⟩ := Bool.and_eq_true_iff.1 hboth
  exact ⟨e, he, beq_iff_eq.1 hname, hresolved⟩

/-- Directives that are evaluated where they are resolved: a constant one for a token that is written
differently; one that is not constant; one that is seeded, as a dependency, with its token put in by a
placeholder; and one whose dependency has given its key a value on the same turn. -/
theorem evaluation_of_resolved :
    let host := Catalog.stillHost { (default : FixedDesktop) with
      application := some ⟨"Live", "/live"⟩, url := some "u" }
    let m := { Catalog.stillMachine Dict.empty with clipboard := some "live" }
    let placeholder : List (Directive Machine) :=
      Custom.directives [⟨"p", "{{currentApplication}} {{currentURL}}", none, false⟩]
    let seed : Context := (Dict.empty.insert "currentAppName" (.text "Seeded")).insert "currentAppPath"
      (.text "/seeded")
    let anew : Scripted := ⟨"x", false, ["x"], [], ["1", "2"], none, true, Dict.empty, false⟩
    let needing : Scripted := ⟨"y", true, ["y"], ["x"], ["Y"], none, true, Dict.empty, false⟩
    let giving : Scripted := ⟨"x", true, ["x"], [], ["X"], none, true,
      Dict.empty.insert "y" (.text "from x"), false⟩
    (∃ e ∈ (render [] (Catalog.builtin host) 2 "{{clipboardText a}} {{clipboardText b}}" Dict.empty
        m).evaluations,
      e.directive.name = "clipboardText" ∧ e.directive.isResolvedIn e.context = true) ∧
    (∃ e ∈ (render [] [anew.directive (σ := Unit) 0] 2 "{{x}} {{x}}" Dict.empty ((), [0])).evaluations,
      e.directive.name = "x" ∧ e.directive.isResolvedIn e.context = true) ∧
    (∃ e ∈ (render placeholder (Catalog.builtin host) 2 "{{p}}" seed m).evaluations,
      e.directive.name = "currentApplication" ∧ e.directive.isResolvedIn e.context = true) ∧
    ∃ e ∈ (render [] [needing.directive (σ := Unit) 0, giving.directive 1] 2 "{{y}} {{x}}" Dict.empty
        ((), [0, 0])).evaluations,
      e.directive.name = "y" ∧ e.directive.isResolvedIn e.context = true := by
  intro host m placeholder seed anew needing giving
  exact ⟨exists_resolved_of_any (by decide +kernel), exists_resolved_of_any (by decide +kernel),
    exists_resolved_of_any (by decide +kernel), exists_resolved_of_any (by decide +kernel)⟩

end Stencil.Engine
