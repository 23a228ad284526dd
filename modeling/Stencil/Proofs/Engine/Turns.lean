import Stencil.Proofs.Engine.Reevaluation

/-!
# Turns That Are Passed Over

A turn that is passed over leaves no token behind when all of them are gone by then: the template has
no braces but those of its tokens, what is put in has none, and the primary key was seeded or given a
value by the directive itself.  Where it was seeded, its tokens gave way to the value that the context
has.  A token that some other directive has put into the text stays there.

Main statement: `gone_of_resolved_turn`.
-/

namespace Stencil.Engine

open Stencil.Text Template

variable {α σ : Type}

/-! ## §1 Seeded tokens -/

/-- Whether edits put a text in the place of every token of a name, unless they replace the token around
it. -/
def ReplacesAll (template name text : String) (edits : List Edit) : Prop :=
  ∀ outer inner, .token outer inner ∈ pieces template →
    (outer.name = name → ⟨outer.span, text⟩ ∈ edits) ∧
      ∀ t ∈ inner, t.name = name → ⟨t.span, text⟩ ∈ edits ∨ ∃ around, ⟨outer.span, around⟩ ∈ edits

theorem replacesAll_edits {template name : String} {l : Layout α} (hl : template.toList = l.write)
    {u : Filling α} {text : PlainText}
    (hu : ∀ h ∈ l.heads, h.opening.name = name → u h.tag = some text) :
    ReplacesAll template name (.ofList text.1) (l.edits u 0) := by
  intro outer inner hpiece
  obtain ⟨n, p, hplace, hnode⟩ := (token_mem_pieces_iff hl).1 hpiece
  obtain ⟨rfl, rfl⟩ := Piece.token.inj hnode
  have hmarks : ∀ m ∈ (n.head, p) :: n.nested p, m.1 ∈ l.heads := fun m hm =>
    mem_heads_of_mem_marks (List.mem_flatMap.2 ⟨(n, p), hplace, hm⟩)
  have hsubset : ∀ edit ∈ n.edits u p, edit ∈ l.edits u 0 := fun edit hedit =>
    List.mem_flatMap.2 ⟨(n, p), hplace, hedit⟩
  rw [Node.edits] at hsubset
  cases hn : u n.tag with
  | some around =>
    rw [hn] at hsubset
    refine ⟨fun hname => ?_, fun t ht hname => .inr ⟨_, hsubset _ List.mem_cons_self⟩⟩
    obtain rfl := Option.some.inj (hn.symm.trans (hu n.head (hmarks _ List.mem_cons_self) hname))
    exact hsubset _ List.mem_cons_self
  | none =>
    rw [hn] at hsubset
    refine ⟨fun hname => ?_, fun t ht hname => .inl ?_⟩
    · have hsome := hu n.head (hmarks _ List.mem_cons_self) hname
      rw [Node.head_tag, hn] at hsome
      exact absurd hsome (by simp)
    · obtain ⟨m, hm, rfl⟩ := List.mem_map.1 ht
      have hsome := hu m.1 (hmarks m (List.mem_cons_of_mem _ hm)) hname
      refine hsubset _ (List.mem_filterMap.2 ⟨m, hm, ?_⟩)
      simp only [hsome, Option.map_some]
      rfl

theorem get?_contextAfter {seed : Context} {es : List (Evaluation σ)} {key : String}
    (h : ∀ e ∈ es, ¬e.Sets key) : (contextAfter seed es).get? key = seed.get? key := by
  induction es using List.reverseRecOn with
  | nil => rfl
  | append_singleton es e ih =>
    obtain ⟨hearlier, hlast⟩ := List.forall_mem_append.1 h
    rw [contextAfter_append, ← ih hearlier]
    exact Dict.get?_insertAll_of_ne fun field hfield heq =>
      hlast e (List.mem_singleton.2 rfl) ⟨field, hfield, heq⟩

/-! ## §2 Turns that are passed over -/

/-- Where the primary key of a directive is seeded, its tokens are filled from the start. -/
theorem exists_seeded_text [DecidableEq α] {order : List (Directive σ)} {seed : Context}
    {d : Directive σ} {key : String} (hfind : Directive.find? order d.name = some d)
    (hkey : key ∈ d.resultKeys.head?) (hresolved : seed.isResolved key = true)
    (hseed : ∀ key s, Context.text? seed key = some s → BraceFree s.toList) {l : Layout α}
    (hnd : l.tags.Nodup) :
    ∃ text : PlainText, Context.text? seed key = some (.ofList text.1) ∧
      ∀ v : Filling α, ∀ h ∈ l.heads, h.opening.name = d.name →
        (seedFilling l order seed).then v h.tag = some text := by
  obtain ⟨value, hvalue⟩ := exists_of_isResolved hresolved
  have htext : Context.text? seed key = some (Context.valueText value) := by
    rw [Context.text?, hvalue, Option.map_some]
  refine ⟨⟨_, hseed key _ htext⟩, by rw [htext, String.ofList_toList], fun v h hh hname => ?_⟩
  have hseeded : seedText? order seed h.opening.name = some (Context.valueText value) := by
    simp [seedText?, hname, hfind, Option.mem_def.1 hkey, hresolved, htext]
  rw [Filling.then, seedFilling, fillingBy_tag hnd _ hh, hseeded, Option.bind_some,
    plainText?_of_braceFree (hseed key _ htext), Option.some_or]

section Turn

variable {custom builtin : List (Directive σ)} {limit : Nat} {template : String} {seed : Context}
  {state : σ} (hseed : ∀ key s, Context.text? seed key = some s → BraceFree s.toList)
  (hfree : ∀ e ∈ (render custom builtin limit template seed state).evaluations,
    BraceFree e.outcome.text.toList)
  {before after : List (Directive σ)} {d : Directive σ}
  (horder : evaluationOrder custom builtin = before ++ d :: after)
include horder

theorem render_eq_afterTurns : render custom builtin limit template seed state =
    (d :: after).foldl (visit (evaluationOrder custom builtin) limit)
      (afterTurns (evaluationOrder custom builtin) before limit template seed state) := by
  rw [render, renderIn_eq, afterTurns, ← List.foldl_append, ← horder]

theorem evaluations_afterTurns_subset :
    (afterTurns (evaluationOrder custom builtin) before limit template seed state).evaluations ⊆
      (render custom builtin limit template seed state).evaluations := by
  rw [render_eq_afterTurns horder]
  exact evaluations_subset_visits _ limit (d :: after) _

include hseed hfree

/-- The seeded values are in place before the first turn, so what is found at a turn has them, and so has
the text in the end. -/
theorem exists_worked_turns {l : Layout Span} (hl : template.toList = l.write) (hnd : l.tags.Nodup)
    (hlimit : l.heads.length ≤ limit) :
    ∃ v w, Worked (evaluationOrder custom builtin) seed l
        (afterTurns (evaluationOrder custom builtin) before limit template seed state)
        ((seedFilling l (evaluationOrder custom builtin) seed).then v) ∧
      Worked (evaluationOrder custom builtin) seed l
        (render custom builtin limit template seed state)
        (((seedFilling l (evaluationOrder custom builtin) seed).then v).then w) := by
  have hmem : ∀ d' ∈ before ++ d :: after, d' ∈ evaluationOrder custom builtin := by
    rw [horder]
    exact fun _ hd' => hd'
  have hseeds : ∀ h ∈ l.heads, ∀ s,
      seedText? (evaluationOrder custom builtin) seed h.opening.name = some s → BraceFree s.toList :=
    fun _ _ _ => braceFree_of_seedText? hseed
  have hstart := worked_startIn hnd hl state hseeds
  obtain ⟨v, hfound⟩ := hstart.foldl_visit hnd (fun d' hd' => hmem d' (List.mem_append_left _ hd'))
    hlimit fun e he => hfree e (evaluations_afterTurns_subset horder he)
  rw [render_eq_afterTurns horder] at hfree ⊢
  obtain ⟨w, hend⟩ := hfound.foldl_visit hnd (fun d' hd' => hmem d' (List.mem_append_right _ hd'))
    hlimit hfree
  exact ⟨v, w, hfound, hend⟩

/-- Neither a directive whose primary key is seeded nor any other has given the key a value. -/
theorem text?_afterTurns {l : Layout Span} (hl : template.toList = l.write) (hnd : l.tags.Nodup)
    (hfind : Directive.find? (evaluationOrder custom builtin) d.name = some d) {key : String}
    (hkey : key ∈ d.resultKeys.head?) (hresolved : seed.isResolved key = true)
    (hown : ∀ e ∈ (afterTurns (evaluationOrder custom builtin) before limit template seed
      state).evaluations, e.directive.name ≠ d.name → ∀ field ∈ e.outcome.fields, field.1 ≠ key) :
    Context.text? (afterTurns (evaluationOrder custom builtin) before limit template seed
      state).context key = Context.text? seed key := by
  have hthreaded : Threaded seed
      (afterTurns (evaluationOrder custom builtin) before limit template seed state) :=
    threaded_visits _ _ _ _ _ _
  rw [Context.text?, hthreaded.context, get?_contextAfter fun e he hsets => ?_, Context.text?]
  obtain ⟨field, hfield, rfl⟩ := hsets
  by_cases hname : e.directive.name = d.name
  · have hnone := seedText?_of_mem_evaluations hnd hl (fun _ _ _ => braceFree_of_seedText? hseed) hfree e
      (evaluations_afterTurns_subset horder he)
    obtain ⟨v, hv⟩ := exists_of_isResolved hresolved
    simp [seedText?, hname, hfind, Option.mem_def.1 hkey, hresolved, Context.text?, hv] at hnone
  · exact hown e he hname field hfield rfl

end Turn

/-- **A turn that is passed over loses nothing** as long as only a directive's own evaluations give its
primary key a value before its turn.  Let a template have no braces but those of its tokens, let neither
the seeded values nor the results have any, and let as many evaluations be allowed as there are tokens.
If then a directive is resolved when its turn comes, the text has no token of it, and neither does the
text in the end.  If its primary key was seeded, the context still has that value, and each of its tokens
gave way to it or went with the token around it. -/
theorem gone_of_resolved_turn {custom builtin : List (Directive σ)} {limit : Nat} {template : String}
    {seed : Context} {state : σ} (hclean : BraceClean template)
    (hseed : ∀ key s, Context.text? seed key = some s → BraceFree s.toList)
    (hlimit : (tokens template).length ≤ limit)
    (hfree : ∀ e ∈ (render custom builtin limit template seed state).evaluations,
      BraceFree e.outcome.text.toList)
    {before after : List (Directive σ)} {d : Directive σ}
    (horder : evaluationOrder custom builtin = before ++ d :: after)
    (hfirst : ∀ d' ∈ before, d'.name ≠ d.name)
    (hown : ∀ key ∈ d.resultKeys.head?,
      ∀ e ∈ (afterTurns (evaluationOrder custom builtin) before limit template seed state).evaluations,
        e.directive.name ≠ d.name → ∀ field ∈ e.outcome.fields, field.1 ≠ key)
    (hresolved : d.isResolvedIn (afterTurns (evaluationOrder custom builtin) before limit template seed
      state).context = true) :
    (∀ t ∈ tokens (afterTurns (evaluationOrder custom builtin) before limit template seed state).text,
      t.name ≠ d.name) ∧
    (∀ t ∈ tokens (render custom builtin limit template seed state).text, t.name ≠ d.name) ∧
    ∀ key ∈ d.resultKeys.head?, seed.isResolved key = true → ∃ s,
      Context.text? seed key = some s ∧
      Context.text? (afterTurns (evaluationOrder custom builtin) before limit template seed
        state).context key = some s ∧
      (∃ edits, Patched 0 template.toList edits
          (afterTurns (evaluationOrder custom builtin) before limit template seed state).text.toList ∧
        ReplacesAll template d.name s edits) ∧
      ∃ edits, Patched 0 template.toList edits
          (render custom builtin limit template seed state).text.toList ∧
        ReplacesAll template d.name s edits := by
  obtain ⟨l, hl, hnd, hlength, -⟩ := exists_spanned_layout hclean
  obtain ⟨v, w, hfound, hend⟩ := exists_worked_turns hseed hfree horder hl hnd (hlength ▸ hlimit)
  have hfind : Directive.find? (evaluationOrder custom builtin) d.name = some d :=
    horder ▸ find?_append_cons hfirst
  have hgone := hfound.gone_of_isResolvedIn hfind hown hresolved
  refine ⟨hfound.gone_iff.1 hgone, hend.gone_iff.1 ?_, fun key hkey hkeySeeded => ?_⟩
  · rw [← fill_fill]
    exact hgone.fill w
  · obtain ⟨text, htext, hfilled⟩ := exists_seeded_text hfind hkey hkeySeeded hseed hnd
    have hpatched {r : Rendering σ} {u : Filling Span} (hr : r.text.toList =
        (l.fill ((seedFilling l (evaluationOrder custom builtin) seed).then u)).write) :
        ∃ edits, Patched 0 template.toList edits r.text.toList ∧
          ReplacesAll template d.name (.ofList text.1) edits := by
      refine ⟨_, ?_, replacesAll_edits hl (hfilled u)⟩
      rw [hr, hl]
      exact patched_fill _ l 0
    refine ⟨_, htext, ?_, hpatched hfound.text, hpatched (by rw [hend.text, Filling.then_then])⟩
    rw [← htext]
    exact text?_afterTurns hseed hfree horder hl hnd hfind hkey hkeySeeded (hown key hkey)

/-- A directive that was worked off as a dependency before its turn. -/
theorem gone_of_resolved_turn_dependency :
    let scripted : List Scripted :=
      [⟨"both", false, ["both"], ["one"], ["B"], none, true, Dict.empty, false⟩,
        ⟨"one", false, ["one"], [], ["A"], none, true, Dict.empty, false⟩]
    let ds := scripted.zipIdx.map fun (s, i) => s.directive (σ := Unit) i
    let template := "{{both}} and {{one}}"
    let found := afterTurns ds (ds.take 1) 2 template Dict.empty ((), [0, 0])
    ds[1].isResolvedIn found.context = true ∧ found.text = "B and A" ∧
      ∀ t ∈ tokens (render [] ds 2 template Dict.empty ((), [0, 0])).text, t.name ≠ "one" := by
  intro scripted ds template found
  have hseed : ∀ key s, Context.text? Dict.empty key = some s → BraceFree s.toList :=
    fun key s hs => absurd hs (by simp [Context.text?, Dict.get?, Dict.empty])
  have horder : evaluationOrder [] ds = ds.take 1 ++ ds[1] :: [] := evaluationOrder_nil ds
  have hresolved : ds[1].isResolvedIn found.context = true := by decide +kernel
  refine ⟨hresolved, by decide +kernel, ?_⟩
  have hgone := @gone_of_resolved_turn _ [] ds 2 template Dict.empty ((), [0, 0]) (by decide +kernel)
    hseed (by decide +kernel) (by decide +kernel) _ _ _ horder (by decide +kernel) (by decide +kernel)
    (by decide +kernel)
  exact hgone.2.1

/-- A placeholder puts in a token of a directive that was seeded: it is passed over and stays. -/
theorem raw_token_of_resolved :
    let custom : List (Directive Machine) :=
      Custom.directives [⟨"clip", "[{{clipboardText}}]", none, false⟩]
    let builtin := Catalog.builtin (Catalog.stillHost default)
    let order := evaluationOrder custom builtin
    let m := { Catalog.stillMachine Dict.empty with clipboard := some "live" }
    let seed : Context := Dict.empty.insert "clipboardText" (.text "seeded")
    (∃ before d after, order = before ++ d :: after ∧
      d.isResolvedIn (afterTurns order before 1 "{{clip}}" seed m).context = true ∧
      ∃ t ∈ tokens (afterTurns order before 1 "{{clip}}" seed m).text, t.name = d.name) ∧
    (render custom builtin 1 "{{clip}}" seed m).text = "[{{clipboardText}}]" := by
  intro custom builtin order m seed
  -- The placeholder and the seven directives on variables come before the clipboard.
  refine ⟨⟨order.take 8, Directives.clipboardText (Catalog.stillHost default), order.drop 9, rfl,
    ?_, ?_⟩, ?_⟩
  · decide +kernel
  · exact mentions_iff.1 (by decide +kernel)
  · decide +kernel

end Stencil.Engine
