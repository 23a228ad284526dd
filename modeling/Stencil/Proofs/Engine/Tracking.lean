import Stencil.Proofs.Dict
import Stencil.Proofs.Engine.Journal
import Stencil.Proofs.Engine.Stepping

/-!
# Tracking a Rendering by a Filling

A rendering of a layout is tracked by the filling that gives every token replaced so far the text in
its place.  Evaluations make the filling grow, so there are ever fewer tokens, and working off a
directive leaves none of its name.

A directive is passed over when its result keys are resolved.  If nothing gives values to the result
keys of a directive before its turn but itself, this happens only when its tokens are gone already:
replaced by the seed, or worked off as those of a dependency.

Main statement: `exists_tracks_renderIn`.
-/

namespace Stencil.Engine

open Stencil.Text Template

variable {α σ : Type} [DecidableEq α]

/-! ## §1 Tracking -/

/-- Whether a rendering of a layout is tracked by a filling. -/
structure Tracks (order : List (Directive σ)) (seed : Context) (l : Layout α) (r : Rendering σ)
    (u : Filling α) : Prop where
  /-- The text is the filled layout. -/
  text : r.text.toList = (l.fill u).write
  /-- What was replaced has the name of a directive. -/
  known : ∀ h ∈ l.heads, u h.tag ≠ none → ∃ d ∈ order, d.name = h.opening.name
  /-- What is resolved was seeded or given by an evaluation. -/
  context : ∀ key, Context.isResolved r.context key = true →
    Context.isResolved seed key = true ∨
      ∃ e ∈ r.evaluations, ∃ field ∈ e.outcome.fields, field.1 = key
  /-- No token is left that has a seeded value. -/
  seeded : ∀ h ∈ (l.fill u).heads, seedText? order seed h.opening.name = none

/-- Whether no token of a name is left in a layout. -/
def Gone (l : Layout α) (name : String) : Prop := ∀ h ∈ l.heads, h.opening.name ≠ name

omit [DecidableEq α] in
theorem Gone.fill {l : Layout α} {name : String} (h : Gone l name) (v : Filling α) :
    Gone (l.fill v) name := by
  intro head hmem
  obtain ⟨-, h₀, hmem₀, -, hopening⟩ := mem_heads_fill hmem
  rw [← hopening]
  exact h h₀ hmem₀

omit [DecidableEq α] in
/-- What is gone from the layout is gone from the text. -/
theorem Tracks.gone_iff {order : List (Directive σ)} {seed : Context} {l : Layout α} {r : Rendering σ}
    {u : Filling α} (h : Tracks order seed l r u) {name : String} :
    Gone (l.fill u) name ↔ ∀ t ∈ tokens r.text, t.name ≠ name := by
  have hmentions : mentions r.text name = true ↔ ∃ head ∈ (l.fill u).heads, head.opening.name = name :=
    mentions_of_layout h.text
  rw [mentions_iff] at hmentions
  have hnot := not_congr hmentions
  simp only [not_exists, not_and] at hnot
  exact hnot.symm

/-- Whether a tracked rendering stands between two visits: no token is left of a directive that was
evaluated. -/
structure Worked (order : List (Directive σ)) (seed : Context) (l : Layout α) (r : Rendering σ)
    (u : Filling α) : Prop extends Tracks order seed l r u where
  /-- What was evaluated was worked off. -/
  worked : ∀ e ∈ r.evaluations, Gone (l.fill u) e.directive.name

omit [DecidableEq α] in
/-- No token is left of a directive that is resolved, if only its own evaluations have given values to
its primary key. -/
theorem Worked.gone_of_isResolvedIn {order : List (Directive σ)} {seed : Context} {l : Layout α}
    {r : Rendering σ} {u : Filling α} (h : Worked order seed l r u) {d : Directive σ}
    (hfind : Directive.find? order d.name = some d)
    (hearly : ∀ key ∈ d.resultKeys.head?, ∀ e ∈ r.evaluations, e.directive.name ≠ d.name →
      ∀ field ∈ e.outcome.fields, field.1 ≠ key)
    (hresolved : d.isResolvedIn r.context = true) : Gone (l.fill u) d.name := by
  rw [Directive.isResolvedIn, Bool.and_eq_true, List.all_eq_true] at hresolved
  cases hkeys : d.resultKeys with
  | nil => simp [hkeys] at hresolved
  | cons key keys =>
    have hmem : key ∈ d.resultKeys := by simp [hkeys]
    rcases h.context key (hresolved.2 key hmem) with hseed | ⟨e, he, field, hfield, hkey⟩
    · -- The seed has a value, so every token was replaced before the first visit.
      have htext : ∃ s, seedText? order seed d.name = some s := by
        obtain ⟨v, hv⟩ := exists_of_isResolved hseed
        exact ⟨Context.valueText v, by simp [seedText?, hfind, hkeys, hseed, Context.text?, hv]⟩
      obtain ⟨s, hs⟩ := htext
      intro head hhead hname
      rw [← hname, h.seeded head hhead] at hs
      exact absurd hs (by simp)
    · -- An evaluation has given it, so that was one of the directive itself.
      by_cases hname : e.directive.name = d.name
      · rw [← hname]
        exact h.worked e he
      · exact absurd hkey (hearly key (by simp [hkeys]) e he hname field hfield)

/-! ## §2 One evaluation -/

theorem isResolved_merge {ctx : Context} {fields : List (String × Json)} {key : String}
    (h : Context.isResolved (Context.merge ctx fields) key = true) :
    Context.isResolved ctx key = true ∨ ∃ field ∈ fields, field.1 = key := by
  by_cases hkey : ∃ field ∈ fields, field.1 = key
  · exact Or.inr hkey
  · have hget : (Context.merge ctx fields).get? key = ctx.get? key :=
      Dict.get?_insertAll_of_ne fun field hfield heq => hkey ⟨field, hfield, heq⟩
    rw [Context.isResolved, hget] at h
    exact Or.inl h

section Run

variable {order : List (Directive σ)} {seed : Context} {l : Layout α} (hnd : l.tags.Nodup)
include hnd

/-- A tracked rendering is tracked after an evaluation, and there are fewer tokens. -/
theorem Tracks.step {r : Rendering σ} {u : Filling α} (h : Tracks order seed l r u)
    {d : Directive σ} (hd : d ∈ order) {head : Head α} {pos : Nat}
    (hmem : (head, pos) ∈ (l.fill u).marks 0) (hname : head.opening.name = d.name)
    {text : PlainText} (htext : (⟨d, head.token pos, r.context, r.state⟩ :
      Evaluation σ).outcome.text = .ofList text.1) :
    Tracks order seed l (r.step d (head.token pos))
        (u.then (resultFilling (l.fill u) d head text)) ∧
      (l.fill (u.then (resultFilling (l.fill u) d head text))).heads.length <
        (l.fill u).heads.length := by
  have hnd' : (l.fill u).tags.Nodup := (tags_fill_sublist u l).nodup hnd
  have hhead : head ∈ (l.fill u).heads := mem_heads_of_mem_marks hmem
  obtain ⟨hfilled, hothers⟩ := resultFilling_spec hnd' hhead hname text
  have hold := evaluations_subset_step r d (head.token pos)
  have hlast := last_mem_evaluations_step r d (head.token pos)
  refine ⟨⟨?_, ?_, ?_, ?_⟩, ?_⟩
  · rw [toList_step h.text hnd' hmem htext, fill_fill]
  · intro h₀ hh₀ hfilled
    by_cases hu : u h₀.tag = none
    · rw [Filling.then, hu, Option.none_or] at hfilled
      obtain ⟨text', hv⟩ := Option.ne_none_iff_exists'.1 hfilled
      obtain ⟨-, h', hh', htag, hname', -⟩ := hothers _ _ hv
      -- The head that is filled is `h₀`, but for its body.
      obtain ⟨-, h₁, hh₁, htag₁, hopening⟩ := mem_heads_fill hh'
      obtain rfl := eq_of_tag_eq hnd hh₁ hh₀ (htag₁.trans htag)
      exact ⟨d, hd, by rw [hopening, hname']⟩
    · exact h.known h₀ hh₀ hu
  · intro key hkey
    rw [context_step] at hkey
    rcases isResolved_merge hkey with hkey | ⟨field, hfield, rfl⟩
    · refine (h.context key hkey).imp_right ?_
      rintro ⟨e, he, hfields⟩
      exact ⟨e, hold he, hfields⟩
    · exact Or.inr ⟨_, hlast, field, hfield, rfl⟩
  · intro h' hh'
    rw [← fill_fill] at hh'
    obtain ⟨-, h₁, hh₁, -, hopening⟩ := mem_heads_fill hh'
    rw [← hopening]
    exact h.seeded h₁ hh₁
  · rw [← fill_fill]
    exact length_heads_fill_lt hhead (by rw [hfilled]; simp)

/-! ## §3 Working off a directive -/

/-- Working off a directive leaves no token of its name, if as many evaluations are allowed as there
are tokens and no result holds a brace. -/
theorem Tracks.resolve {r : Rendering σ} {u : Filling α} (h : Tracks order seed l r u)
    {d : Directive σ} (hd : d ∈ order) {limit : Nat} (hlimit : (l.fill u).heads.length ≤ limit)
    (hfree : ∀ e ∈ (resolve d limit r).evaluations, BraceFree e.outcome.text.toList) :
    ∃ v, Tracks order seed l (resolve d limit r) (u.then v) ∧ Gone (l.fill (u.then v)) d.name := by
  induction limit generalizing r u with
  | zero =>
    refine ⟨fun _ => none, by rwa [Filling.then_none], fun head hmem => ?_⟩
    rw [Filling.then_none, List.length_eq_zero_iff.1 (Nat.le_zero.1 hlimit)] at hmem
    exact absurd hmem (by simp)
  | succ limit ih =>
    have hfirst := firstNamed_write d.name h.text
    rw [Engine.resolve] at hfree ⊢
    cases hl : (l.fill u).firstNamed d.name with
    | none =>
      rw [hl] at hfirst
      simp only [hfirst]
      refine ⟨fun _ => none, by rwa [Filling.then_none], ?_⟩
      rw [Filling.then_none]
      exact firstNamed_eq_none hl
    | some head =>
      rw [hl] at hfirst
      obtain ⟨pos, nested, hmem, hfirst⟩ := hfirst
      simp only [hfirst] at hfree ⊢
      -- The evaluation is one of those whose results hold no braces.
      have hplain := hfree _
        (evaluations_subset_resolve d limit _ (last_mem_evaluations_step r d (head.token pos)))
      obtain ⟨text, htext⟩ : ∃ text : PlainText,
          (⟨d, head.token pos, r.context, r.state⟩ : Evaluation σ).outcome.text = .ofList text.1 :=
        ⟨⟨_, hplain⟩, by simp⟩
      obtain ⟨hstep, hfewer⟩ := h.step hnd hd hmem (mem_of_firstNamed hl).2 htext
      obtain ⟨v, htracks, hgone⟩ := ih hstep (by omega) hfree
      rw [Filling.then_then] at htracks hgone
      exact ⟨_, htracks, hgone⟩

/-- So it does between visits, where nothing is left of the directives evaluated before. -/
theorem Worked.resolve {r : Rendering σ} {u : Filling α} (h : Worked order seed l r u)
    {d : Directive σ} (hd : d ∈ order) {limit : Nat} (hlimit : l.heads.length ≤ limit)
    (hfree : ∀ e ∈ (Engine.resolve d limit r).evaluations, BraceFree e.outcome.text.toList) :
    ∃ v, Worked order seed l (Engine.resolve d limit r) (u.then v) ∧
      Gone (l.fill (u.then v)) d.name := by
  obtain ⟨v, htracks, hgone⟩ := h.toTracks.resolve hnd hd
    (Nat.le_trans (length_heads_fill_le u l) hlimit) hfree
  refine ⟨v, ⟨htracks, fun e he => ?_⟩, hgone⟩
  -- What was worked off before is still gone, and what was evaluated now is gone as well.
  obtain ⟨es, hes, -, howned⟩ := evaluations_resolve d limit r
  rw [hes] at he
  rcases List.mem_append.1 he with he | he
  · rw [← fill_fill]
    exact (h.worked e he).fill v
  · rw [(howned e he).1]
    exact hgone

/-- Working off directives one after the other leaves no token of any of them. -/
theorem Worked.resolveAll {r : Rendering σ} {u : Filling α} (h : Worked order seed l r u)
    {ds : List (Directive σ)} (hds : ∀ d ∈ ds, d ∈ order) {limit : Nat}
    (hlimit : l.heads.length ≤ limit)
    (hfree : ∀ e ∈ (ds.foldl (fun r d => Engine.resolve d limit r) r).evaluations,
      BraceFree e.outcome.text.toList) :
    ∃ v, Worked order seed l (ds.foldl (fun r d => Engine.resolve d limit r) r) (u.then v) ∧
      ∀ d ∈ ds, Gone (l.fill (u.then v)) d.name := by
  induction ds generalizing r u with
  | nil => exact ⟨fun _ => none, by rwa [Filling.then_none], by simp⟩
  | cons d ds ih =>
    rw [List.foldl_cons] at hfree ⊢
    obtain ⟨v, hworked, hgone⟩ := h.resolve hnd (hds d List.mem_cons_self) hlimit
      fun e he => hfree e (evaluations_resolveAll limit ds _ he)
    obtain ⟨w, hw, hgones⟩ := ih hworked (fun d' hd' => hds d' (List.mem_cons_of_mem _ hd')) hfree
    rw [Filling.then_then] at hw hgones
    refine ⟨v.then w, hw, fun d' hd' => ?_⟩
    rcases List.mem_cons.1 hd' with rfl | hd'
    · rw [← Filling.then_then, ← fill_fill]
      exact hgone.fill w
    · exact hgones d' hd'

/-! ## §4 Visits -/

/-- A visit works off its directive, or passes over one that is resolved. -/
theorem Worked.visit_or {r : Rendering σ} {u : Filling α} (h : Worked order seed l r u)
    {d : Directive σ} (hd : d ∈ order) {limit : Nat} (hlimit : l.heads.length ≤ limit)
    (hfree : ∀ e ∈ (Engine.visit order limit r d).evaluations,
      BraceFree e.outcome.text.toList) :
    ∃ v, Worked order seed l (Engine.visit order limit r d) (u.then v) ∧
      (Gone (l.fill (u.then v)) d.name ∨ d.isResolvedIn r.context = true ∧ u.then v = u) := by
  unfold Engine.visit at hfree ⊢
  split
  · rename_i hskip
    refine ⟨fun _ => none, by rwa [Filling.then_none], ?_⟩
    rw [Filling.then_none]
    rcases Bool.or_eq_true_iff.1 hskip with hmentions | hresolved
    · refine .inl fun head hmem hname => ?_
      have hmentioned := (mentions_of_layout h.text).2 ⟨head, hmem, hname⟩
      rw [hmentioned] at hmentions
      exact absurd hmentions (by simp)
    · exact .inr ⟨hresolved, rfl⟩
  · rename_i hvisit
    rw [if_neg hvisit] at hfree
    obtain ⟨v, hworked, hgone⟩ :=
      h.resolveAll hnd (fun d' hd' => mem_of_mem_worklist hd hd') hlimit hfree
    exact ⟨v, hworked, .inl (hgone d (List.mem_append_right _ (List.mem_singleton.2 rfl)))⟩

/-- A visit leaves no token of its directive. -/
theorem Worked.visit {r : Rendering σ} {u : Filling α} (h : Worked order seed l r u)
    {d : Directive σ} (hd : d ∈ order) {limit : Nat} (hlimit : l.heads.length ≤ limit)
    (hfirst : Directive.find? order d.name = some d ∨ Gone (l.fill u) d.name)
    (hearly : ∀ e ∈ r.evaluations, e.directive.name ≠ d.name →
      ∀ field ∈ e.outcome.fields, field.1 ∉ d.resultKeys)
    (hfree : ∀ e ∈ (Engine.visit order limit r d).evaluations,
      BraceFree e.outcome.text.toList) :
    ∃ v, Worked order seed l (Engine.visit order limit r d) (u.then v) ∧
      Gone (l.fill (u.then v)) d.name := by
  obtain ⟨v, hworked, hgone | ⟨hresolved, hsame⟩⟩ := h.visit_or hnd hd hlimit hfree
  · exact ⟨v, hworked, hgone⟩
  · refine ⟨v, hworked, ?_⟩
    rw [hsame]
    rcases hfirst with hfind | hgone
    · refine h.gone_of_isResolvedIn hfind (fun key hkey e he hne field hfield heq => ?_) hresolved
      exact hearly e he hne field hfield (heq ▸ List.mem_of_mem_head? hkey)
    · exact hgone

theorem Worked.foldl_visit {r : Rendering σ} {u : Filling α} (h : Worked order seed l r u)
    {ds : List (Directive σ)} (hds : ∀ d ∈ ds, d ∈ order) {limit : Nat}
    (hlimit : l.heads.length ≤ limit)
    (hfree : ∀ e ∈ (ds.foldl (Engine.visit order limit) r).evaluations,
      BraceFree e.outcome.text.toList) :
    ∃ v, Worked order seed l (ds.foldl (Engine.visit order limit) r) (u.then v) := by
  induction ds generalizing r u with
  | nil => exact ⟨fun _ => none, by rwa [Filling.then_none]⟩
  | cons d ds ih =>
    rw [List.foldl_cons] at hfree ⊢
    obtain ⟨v, hworked, -⟩ := h.visit_or hnd (hds d List.mem_cons_self) hlimit
      fun e he => hfree e (evaluations_subset_visits order limit ds _ he)
    obtain ⟨w, hw⟩ := ih hworked (fun d' hd' => hds d' (List.mem_cons_of_mem _ hd')) hfree
    exact ⟨v.then w, by rwa [← Filling.then_then]⟩

/-! ## §5 The pass -/

omit hnd [DecidableEq α] in
theorem known_of_seedText? {name s : String} (h : seedText? order seed name = some s) :
    ∃ d ∈ order, d.name = name := by
  obtain ⟨d, hfind, -⟩ := Option.bind_eq_some_iff.1 h
  exact ⟨d, mem_of_find? hfind, name_of_find? hfind⟩

/-- Whether no evaluation gives a value to a result key of a directive of another name before that
directive's turn. -/
def NoEarlyFields (order : List (Directive σ)) (limit : Nat) (start : Rendering σ) : Prop :=
  ∀ before d after, order = before ++ d :: after →
    ∀ e ∈ (before.foldl (Engine.visit order limit) start).evaluations, e.directive.name ≠ d.name →
      ∀ field ∈ e.outcome.fields, field.1 ∉ d.resultKeys

omit hnd [DecidableEq α] in
/-- It is enough to look at every place in the order. -/
theorem noEarlyFields_iff {limit : Nat} {start : Rendering σ} :
    NoEarlyFields order limit start ↔ ∀ i (hi : i < order.length),
      ∀ e ∈ ((order.take i).foldl (Engine.visit order limit) start).evaluations,
        e.directive.name ≠ order[i].name →
          ∀ field ∈ e.outcome.fields, field.1 ∉ order[i].resultKeys := by
  constructor
  · intro h i hi
    refine h _ _ (order.drop (i + 1)) ?_
    rw [List.getElem_cons_drop, List.take_append_drop]
  · rintro h before d after rfl
    have hlength : before.length < (before ++ d :: after).length := by simp
    simpa using h before.length hlength

instance (order : List (Directive σ)) (limit : Nat) (start : Rendering σ) :
    Decidable (NoEarlyFields order limit start) :=
  decidable_of_iff _ noEarlyFields_iff.symm

/-- A pass leaves no token of any directive. -/
theorem Worked.visits {start : Rendering σ} {limit : Nat}
    (hlimit : l.heads.length ≤ limit) (hearly : NoEarlyFields order limit start)
    {before ds : List (Directive σ)} (horder : order = before ++ ds) {u : Filling α}
    (h : Worked order seed l (before.foldl (Engine.visit order limit) start) u)
    (hvisited : ∀ d ∈ before, Gone (l.fill u) d.name)
    (hfree : ∀ e ∈ (order.foldl (Engine.visit order limit) start).evaluations,
      BraceFree e.outcome.text.toList) :
    ∃ v, Worked order seed l (order.foldl (Engine.visit order limit) start) v ∧
      ∀ d ∈ order, Gone (l.fill v) d.name := by
  induction ds generalizing before u with
  | nil =>
    rw [List.append_nil] at horder
    rw [← horder] at h hvisited
    exact ⟨u, h, hvisited⟩
  | cons d ds ih =>
    have hd : d ∈ order := by rw [horder]; simp
    have horder' : order = (before ++ [d]) ++ ds := by rw [horder]; simp
    -- The directive is the first of its name, or one of that name has left no token.
    have hfirst : Directive.find? order d.name = some d ∨ Gone (l.fill u) d.name := by
      by_cases hbefore : ∃ d' ∈ before, d'.name = d.name
      · obtain ⟨d', hd', hname⟩ := hbefore
        exact Or.inr (hname ▸ hvisited d' hd')
      · exact Or.inl (horder ▸ find?_append_cons fun d' hd' hname => hbefore ⟨d', hd', hname⟩)
    have hnext : (before ++ [d]).foldl (Engine.visit order limit) start =
        Engine.visit order limit (before.foldl (Engine.visit order limit) start) d := by
      rw [List.foldl_append]
      rfl
    have hlater : order.foldl (Engine.visit order limit) start =
        ds.foldl (Engine.visit order limit)
          ((before ++ [d]).foldl (Engine.visit order limit) start) := by
      rw [← List.foldl_append, ← horder']
    obtain ⟨v, hv, hgone⟩ := h.visit hnd hd hlimit hfirst (hearly before d ds horder) fun e he => by
      rw [hlater, hnext] at hfree
      exact hfree e (evaluations_subset_visits order limit ds _ he)
    rw [← hnext] at hv
    refine ih horder' hv fun d' hd' => ?_
    rcases List.mem_append.1 hd' with hd' | hd'
    · rw [← fill_fill]
      exact (hvisited d' hd').fill v
    · rw [List.mem_singleton.1 hd']
      exact hgone

/-- A rendering before the first visit is tracked by the seeded values. -/
theorem worked_startIn {template : String} (hl : template.toList = l.write) (state : σ)
    (hseed : ∀ h ∈ l.heads, ∀ s, seedText? order seed h.opening.name = some s →
      BraceFree s.toList) :
    Worked order seed l (startIn order template seed state) (seedFilling l order seed) := by
  refine ⟨⟨toList_applySeed hl hnd hseed, ?_, fun key hkey => Or.inl hkey, ?_⟩, ?_⟩
  · intro h hh hfilled
    obtain ⟨text, hv⟩ := Option.ne_none_iff_exists'.1 hfilled
    rw [seedFilling, fillingBy_tag hnd _ hh] at hv
    obtain ⟨s, hs, -⟩ := Option.bind_eq_some_iff.1 hv
    exact known_of_seedText? hs
  · intro h hh
    obtain ⟨hv, h₀, hh₀, htag, hopening⟩ := mem_heads_fill hh
    rw [seedFilling, ← htag, fillingBy_tag hnd _ hh₀, hopening] at hv
    cases hs : seedText? order seed h.opening.name with
    | none => rfl
    | some s =>
      have hplain := hseed h₀ hh₀ s (hopening ▸ hs)
      rw [hs, Option.bind_some, plainText?_of_braceFree hplain] at hv
      exact absurd hv (by simp)
  · simp [startIn, Rendering.evaluations]

/-- A rendering of a layout is tracked by a filling, and leaves no token of any directive. -/
theorem exists_tracks_renderIn {template : String} (hl : template.toList = l.write) {limit : Nat}
    (hlimit : l.heads.length ≤ limit) {state : σ}
    (hseed : ∀ h ∈ l.heads, ∀ s, seedText? order seed h.opening.name = some s →
      BraceFree s.toList)
    (hearly : NoEarlyFields order limit (startIn order template seed state))
    (hfree : ∀ e ∈ (renderIn order limit template seed state).evaluations,
      BraceFree e.outcome.text.toList) :
    ∃ u, Worked order seed l (renderIn order limit template seed state) u ∧
      ∀ d ∈ order, Gone (l.fill u) d.name := by
  rw [renderIn_eq] at hfree ⊢
  exact Worked.visits hnd hlimit hearly (List.nil_append order).symm
    (worked_startIn hnd hl state hseed) (by simp) hfree

end Run

end Stencil.Engine
