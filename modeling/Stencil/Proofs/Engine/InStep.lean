import Stencil.Proofs.Engine.Journal
import Stencil.Proofs.Engine.Stepping
import Stencil.Proofs.Template.Unnested

/-!
# Renderings in Step

Templates may have the same tokens of some names, none of which holds tokens.  As long as only
directives of these names are visited, such templates are rendered in step: the same tokens are
evaluated in the same contexts and states, and the same texts take their places.  What else stands
in the templates, and where, does not matter.

Main statements: `inStep_start` and `InStep.visits`.
-/

namespace Stencil.Engine

open Stencil.Text Template

variable {α σ ι : Type} {names : String → Bool} {l : ι → Layout α}

/-! ## §1 Layouts with tokens in common -/

/-- Whether layouts have the same tokens of some names, none of which holds tokens. -/
structure Common (names : String → Bool) (l : ι → Layout α) : Prop where
  /-- Tags tell tokens apart. -/
  nodup : ∀ i, (l i).tags.Nodup
  /-- The tokens of these names hold no tokens. -/
  clear : ∀ i, (l i).Clear names
  /-- They are the same. -/
  named : ∀ i j, (l i).named names = (l j).named names

theorem Common.fill (hl : Common names l) {u : Filling α} (honly : ∀ i, u.Only names (l i)) :
    Common names fun i => (l i).fill u := by
  refine ⟨fun i => (tags_fill_sublist u (l i)).nodup (hl.nodup i), fun i => (hl.clear i).fill u, ?_⟩
  intro i j
  rw [named_fill (hl.clear i).apart (honly i), named_fill (hl.clear j).apart (honly j), hl.named i j]

/-- The tokens of one of the names are those of it among all. -/
theorem named_eq_filter {name : String} (hname : names name = true) (l : Layout α) :
    l.named (· == name) = (l.named names).filter (·.opening.name == name) := by
  rw [Layout.named, Layout.named, List.filter_filter]
  refine List.filter_congr fun h _ => ?_
  cases heq : h.opening.name == name with
  | true => rw [beq_iff_eq.1 heq, hname]; rfl
  | false => rfl

/-- So layouts with tokens in common have the same tokens of each of the names. -/
theorem Common.named_eq (hl : Common names l) {name : String} (hname : names name = true) (i j : ι) :
    (l i).named (· == name) = (l j).named (· == name) := by
  rw [named_eq_filter hname, named_eq_filter hname, hl.named i j]

theorem Common.clear_name (hl : Common names l) {name : String} (hname : names name = true) (i : ι) :
    (l i).Clear (· == name) := by
  intro n hn heq
  refine hl.clear i n hn ?_
  rwa [beq_iff_eq.1 heq]

variable [DecidableEq α]

/-- A filling by heads that fills only heads of some names is chosen by these heads. -/
theorem fillingBy_eq_named {l : Layout α} (hnd : l.tags.Nodup) {g : Head α → Option PlainText}
    (hg : ∀ h ∈ l.heads, names h.opening.name = false → g h = none) (a : α) :
    fillingBy l g a = ((l.named names).find? fun h => h.tag = a).bind g := by
  have hsub : ∀ h ∈ l.named names, h ∈ l.heads := fun h hh => (mem_named.1 hh).1
  cases hnamed : (l.named names).find? fun h => h.tag = a with
  | some h =>
    have htag : h.tag = a := by simpa using List.find?_some hnamed
    rw [← htag, fillingBy_tag hnd g (hsub h (List.mem_of_find?_eq_some hnamed))]
    rfl
  | none =>
    rw [fillingBy]
    cases hfind : l.heads.find? fun h => h.tag = a with
    | none => rfl
    -- A head with the tag that is not among those of the names has another name.
    | some h =>
      refine hg h (List.mem_of_find?_eq_some hfind) ?_
      rw [← Bool.not_eq_true]
      intro hname
      have hmem := mem_named.2 ⟨List.mem_of_find?_eq_some hfind, hname⟩
      have htag : h.tag = a := by simpa using List.find?_some hfind
      exact absurd (List.find?_eq_none.1 hnamed h hmem) (by simpa using htag)

/-- So it is the same for layouts with these tokens in common. -/
theorem Common.fillingBy_eq (hl : Common names l) {g : Head α → Option PlainText}
    (hg : ∀ i, ∀ h ∈ (l i).heads, names h.opening.name = false → g h = none) (i j : ι) :
    fillingBy (l i) g = fillingBy (l j) g := by
  funext a
  rw [fillingBy_eq_named (hl.nodup i) (hg i), fillingBy_eq_named (hl.nodup j) (hg j), hl.named i j]

/-- It fills only tokens of these names. -/
theorem only_fillingBy {l : Layout α} (hnd : l.tags.Nodup) {g : Head α → Option PlainText}
    (hg : ∀ h ∈ l.heads, names h.opening.name = false → g h = none) :
    (fillingBy l g).Only names l := by
  intro h hh hne
  rw [fillingBy_tag hnd g hh] at hne
  by_contra hname
  exact hne (hg h hh (by simpa using hname))

omit [DecidableEq α] in
/-- Filling some tokens of these names after others fills only such tokens. -/
theorem only_then {l : Layout α} (hnd : l.tags.Nodup) {u v : Filling α} (hu : u.Only names l)
    (hv : v.Only names (l.fill u)) (hhead : ∀ a, v a ≠ none → ∃ h ∈ (l.fill u).heads, h.tag = a) :
    (u.then v).Only names l := by
  intro h hh hne
  by_cases huh : u h.tag = none
  · rw [Filling.then, huh, Option.none_or] at hne
    obtain ⟨h', hh', htag⟩ := hhead _ hne
    obtain ⟨-, h₀, hh₀, htag₀, hopening⟩ := mem_heads_fill hh'
    rw [← eq_of_tag_eq hnd hh₀ hh (htag₀.trans htag), hopening]
    exact hv h' hh' (htag ▸ hne)
  · exact hu h hh huh

/-! ## §2 Renderings in step -/

/-- Whether renderings of layouts are in step: the same fillings have been made, in the same contexts
and states. -/
structure InStep (names : String → Bool) (l : ι → Layout α) (u : Filling α) (r : ι → Rendering σ) :
    Prop where
  /-- Only tokens of some names have been replaced. -/
  only : ∀ i, u.Only names (l i)
  /-- The texts are the filled layouts. -/
  text : ∀ i, (r i).text.toList = ((l i).fill u).write
  /-- The contexts are the same. -/
  context : ∀ i j, (r i).context = (r j).context
  /-- The states are the same. -/
  state : ∀ i j, (r i).state = (r j).state
  /-- The evaluations have given the same. -/
  outcomes : ∀ i j, (r i).evaluations.map (·.outcome) = (r j).evaluations.map (·.outcome)

/-- Renderings in step are in step after an evaluation for a token they have in common. -/
theorem InStep.step (hl : Common names l) {u : Filling α} {r : ι → Rendering σ}
    (h : InStep names l u r) {d : Directive σ} (hname : names d.name = true) (hplaceless : Placeless d)
    {head : Head α} {pos : ι → Nat} (hmark : ∀ i, (head, pos i) ∈ ((l i).fill u).marks 0)
    (hhead : head.opening.name = d.name) (i₀ : ι)
    (hfree : BraceFree (⟨d, head.token (pos i₀), (r i₀).context, (r i₀).state⟩ :
      Evaluation σ).outcome.text.toList) :
    ∃ v, InStep names l (u.then v) fun i => (r i).step d (head.token (pos i)) := by
  have hfilled := hl.fill h.only
  have hrun : ∀ i j, (⟨d, head.token (pos i), (r i).context, (r i).state⟩ : Evaluation σ).run =
      (⟨d, head.token (pos j), (r j).context, (r j).state⟩ : Evaluation σ).run := by
    intro i j
    rw [h.context i j, h.state i j]
    exact hplaceless.run_eq head _ _ _ _
  have houtcome : ∀ i j,
      (⟨d, head.token (pos i), (r i).context, (r i).state⟩ : Evaluation σ).outcome =
        (⟨d, head.token (pos j), (r j).context, (r j).state⟩ : Evaluation σ).outcome := by
    intro i j
    rw [Evaluation.outcome, Evaluation.outcome, Evaluation.answer, Evaluation.answer, hrun i j]
  obtain ⟨text, htext⟩ : ∃ text : PlainText, ∀ i,
      (⟨d, head.token (pos i), (r i).context, (r i).state⟩ : Evaluation σ).outcome.text =
        .ofList text.1 :=
    ⟨⟨_, hfree⟩, fun i => by rw [houtcome i i₀, String.ofList_toList]⟩
  -- What is filled are tokens of the directive, so the layouts have them in common.
  have hothers : ∀ i, ∀ h' ∈ ((l i).fill u).heads, names h'.opening.name = false →
      (if alike d head h' then some text else none) = none := by
    intro i h' hh' hother
    refine if_neg fun halike => ?_
    cases hd : d.constant with
    | true =>
      rw [((alike_of_constant hd).1 halike).1, hname] at hother
      exact absurd hother (by simp)
    | false =>
      rw [eq_of_tag_eq (hfilled.nodup i) hh' (mem_heads_of_mem_marks (hmark i))
        ((alike_of_not_constant hd).1 halike), hhead, hname] at hother
      exact absurd hother (by simp)
  have hsame : ∀ i, resultFilling ((l i).fill u) d head text =
      resultFilling ((l i₀).fill u) d head text := fun i => hfilled.fillingBy_eq hothers i i₀
  refine ⟨resultFilling ((l i₀).fill u) d head text, ⟨fun i => ?_, fun i => ?_, fun i j => ?_,
    fun i j => ?_, fun i j => ?_⟩⟩
  · rw [← hsame i]
    refine only_then (hl.nodup i) (h.only i) (only_fillingBy (hfilled.nodup i) (hothers i)) ?_
    intro a ha
    obtain ⟨text', hv⟩ := Option.ne_none_iff_exists'.1 ha
    obtain ⟨h', hh', htag, -⟩ := exists_head_of_fillingBy hv
    exact ⟨h', hh', htag⟩
  · rw [toList_step (h.text i) (hfilled.nodup i) (hmark i) (htext i), fill_fill, hsame i]
  · rw [context_step, context_step, houtcome i j, h.context i j]
  · exact congrArg Prod.snd (hrun i j)
  · rw [evaluations_step, evaluations_step, List.map_append, List.map_append, h.outcomes i j,
      List.map_singleton, List.map_singleton, houtcome i j]

theorem InStep.resolve (hl : Common names l) {u : Filling α} {r : ι → Rendering σ}
    (h : InStep names l u r) {d : Directive σ} (hname : names d.name = true) (hplaceless : Placeless d)
    (i₀ : ι) (limit : Nat)
    (hfree : ∀ e ∈ (resolve d limit (r i₀)).evaluations, BraceFree e.outcome.text.toList) :
    ∃ v, InStep names l (u.then v) fun i => resolve d limit (r i) := by
  induction limit generalizing r u with
  | zero => exact ⟨fun _ => none, by rwa [Filling.then_none]⟩
  | succ limit ih =>
    have hfilled := hl.fill h.only
    have hapart := fun i => (hfilled.clear_name hname i).apart
    -- The token that comes next is the first of the name in all of them.
    cases hnamed : ((l i₀).fill u).named (· == d.name) with
    | nil =>
      have hdone : ∀ i, Engine.resolve d (limit + 1) (r i) = r i := fun i =>
        resolve_of_named_nil (h.text i) (hapart i) ((hfilled.named_eq hname i i₀).trans hnamed) _
      simp only [hdone]
      exact ⟨fun _ => none, by rwa [Filling.then_none]⟩
    | cons head heads =>
      choose pos hmark hhead hnext using fun i => exists_resolve_succ (h.text i) (hapart i)
        ((hfilled.named_eq hname i i₀).trans hnamed)
      rw [hnext i₀] at hfree
      -- The evaluation is one of those whose results hold no braces.
      obtain ⟨v, hv⟩ := h.step hl hname hplaceless hmark (hhead i₀) i₀ (hfree _
        (evaluations_subset_resolve d limit _ (last_mem_evaluations_step _ d _)))
      obtain ⟨w, hw⟩ := ih hv hfree
      simp only [hnext]
      exact ⟨v.then w, by rwa [Filling.then_then] at hw⟩

theorem InStep.resolveAll (hl : Common names l) {u : Filling α} {r : ι → Rendering σ}
    (h : InStep names l u r) {ds : List (Directive σ)}
    (hds : ∀ d ∈ ds, names d.name = true ∧ Placeless d) (i₀ : ι) (limit : Nat)
    (hfree : ∀ e ∈ (ds.foldl (fun r d => Engine.resolve d limit r) (r i₀)).evaluations,
      BraceFree e.outcome.text.toList) :
    ∃ v, InStep names l (u.then v) fun i =>
      ds.foldl (fun r d => Engine.resolve d limit r) (r i) := by
  induction ds generalizing r u with
  | nil => exact ⟨fun _ => none, by rwa [Filling.then_none]⟩
  | cons d ds ih =>
    obtain ⟨hname, hplaceless⟩ := hds d List.mem_cons_self
    obtain ⟨v, hv⟩ := h.resolve hl hname hplaceless i₀ limit
      fun e he => hfree e (evaluations_resolveAll limit ds _ he)
    obtain ⟨w, hw⟩ := ih hv (fun d' hd' => hds d' (List.mem_cons_of_mem _ hd')) hfree
    exact ⟨v.then w, by rwa [Filling.then_then] at hw⟩

omit [DecidableEq α] in
/-- Renderings in step mention the same of the names. -/
theorem InStep.mentions_eq (hl : Common names l) {u : Filling α} {r : ι → Rendering σ}
    (h : InStep names l u r) {name : String} (hname : names name = true) (i j : ι) :
    mentions (r i).text name = mentions (r j).text name := by
  have hmentions : ∀ i, mentions (r i).text name = true ↔
      ((l i).fill u).named (· == name) ≠ [] := by
    intro i
    rw [mentions_of_layout (h.text i), ne_eq, List.eq_nil_iff_forall_not_mem]
    simp [mem_named]
  rw [Bool.eq_iff_iff, hmentions, hmentions, (hl.fill h.only).named_eq hname i j]

/-- Renderings in step are in step after visits, if what is worked off are directives of the names. -/
theorem InStep.visits (hl : Common names l) {u : Filling α} {r : ι → Rendering σ}
    (h : InStep names l u r) {order ds : List (Directive σ)}
    (hds : ∀ d ∈ ds, ∀ d' ∈ worklist order d, names d'.name = true ∧ Placeless d') (i₀ : ι)
    (limit : Nat)
    (hfree : ∀ e ∈ (ds.foldl (visit order limit) (r i₀)).evaluations,
      BraceFree e.outcome.text.toList) :
    ∃ v, InStep names l (u.then v) fun i => ds.foldl (visit order limit) (r i) := by
  induction ds generalizing r u with
  | nil => exact ⟨fun _ => none, by rwa [Filling.then_none]⟩
  | cons d ds ih =>
    have hwork := hds d List.mem_cons_self
    have hname : names d.name = true :=
      (hwork d (List.mem_append_right _ (List.mem_singleton.2 rfl))).1
    have hfree' : ∀ e ∈ (visit order limit (r i₀) d).evaluations,
        BraceFree e.outcome.text.toList :=
      fun e he => hfree e (evaluations_subset_visits order limit ds _ he)
    -- All of them pass the directive over, or none does.
    obtain ⟨v, hv⟩ : ∃ v, InStep names l (u.then v) fun i => visit order limit (r i) d := by
      by_cases hskip : !mentions (r i₀).text d.name || d.isResolvedIn (r i₀).context
      · have hpassed : ∀ i, visit order limit (r i) d = r i := by
          intro i
          rw [visit, h.mentions_eq hl hname i i₀, h.context i i₀, if_pos hskip]
        simp only [hpassed]
        exact ⟨fun _ => none, by rwa [Filling.then_none]⟩
      · have hvisited : ∀ i, visit order limit (r i) d =
            (worklist order d).foldl (fun r d => Engine.resolve d limit r) (r i) := by
          intro i
          rw [visit, h.mentions_eq hl hname i i₀, h.context i i₀, if_neg hskip]
        simp only [hvisited] at hfree' ⊢
        exact h.resolveAll hl hwork i₀ limit hfree'
    obtain ⟨w, hw⟩ := ih hv (fun d' hd' => hds d' (List.mem_cons_of_mem _ hd')) hfree
    exact ⟨v.then w, by rwa [Filling.then_then] at hw⟩

/-- Renderings start in step, if only tokens of the names have seeded values and these hold no braces.
-/
theorem inStep_start (hl : Common names l) {template : ι → String}
    (htemplate : ∀ i, (template i).toList = (l i).write) {order : List (Directive σ)} {seed : Context}
    (hothers : ∀ i, ∀ h ∈ (l i).heads, names h.opening.name = false →
      seedText? order seed h.opening.name = none)
    (hfree : ∀ i, ∀ h ∈ (l i).heads, ∀ s, seedText? order seed h.opening.name = some s →
      BraceFree s.toList) (i₀ : ι) (state : σ) :
    InStep names l (seedFilling (l i₀) order seed)
      fun i => startIn order (template i) seed state := by
  have hg : ∀ i, ∀ h ∈ (l i).heads, names h.opening.name = false →
      (seedText? order seed h.opening.name).bind plainText? = none := by
    intro i h hh hname
    rw [hothers i h hh hname]
    rfl
  -- Seeded values only stand for the names, whose heads the layouts have in common.
  have hsame : ∀ i, seedFilling (l i) order seed = seedFilling (l i₀) order seed :=
    fun i => hl.fillingBy_eq hg i i₀
  refine ⟨fun i => ?_, fun i => ?_, fun _ _ => rfl, fun _ _ => rfl, fun _ _ => rfl⟩
  · rw [← hsame i]
    exact only_fillingBy (hl.nodup i) (hg i)
  · rw [← hsame i]
    exact toList_applySeed (htemplate i) (hl.nodup i) (hfree i)

end Stencil.Engine
