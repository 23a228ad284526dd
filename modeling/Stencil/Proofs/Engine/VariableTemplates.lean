import Stencil.Proofs.Catalog
import Stencil.Proofs.Directives.Variables
import Stencil.Proofs.Engine.Fields
import Stencil.Proofs.Engine.InOrder

/-!
# Templates with Variables

A template of texts and directives on variables that do not stand in one another is a list of calls
on the store.  Rendering it makes these calls: first all that change something, one operation after
the other, and then all that read; those of one operation come in the order of the text.  Every token
is replaced by what its call gives.

Main statement: `render_variables`.
-/

namespace Stencil.Engine

open Stencil.Text Store Template Directives Catalog VariableOperation

variable {α σ : Type}

/-! ## §1 The calls of a layout -/

/-- The calls of some operations that a layout makes. -/
def callsIn (l : Layout α) (ops : List VariableOperation) : List (VariableOperation × Head α) :=
  ops.flatMap fun op => (l.named (· == op.name)).map (op, ·)

theorem mem_callsIn {l : Layout α} {ops : List VariableOperation} {op : VariableOperation}
    {h : Head α} : (op, h) ∈ callsIn l ops ↔ op ∈ ops ∧ h ∈ l.heads ∧ h.opening.name = op.name := by
  simp [callsIn, mem_named]

theorem says_variable (op : VariableOperation) (host : Host) :
    Says (op.directive host) fun h : Head α => op.evaluate host (h.token 0) := by
  intro h pos ctx _
  cases op <;> rfl

/-- The tokens of names that are not filled are left. -/
theorem named_fill_of_none {l : Layout α} (hclear : l.Clear fun _ => true) {u : Filling α}
    {name : String} (hu : ∀ h ∈ l.heads, h.opening.name = name → u h.tag = none) :
    (l.fill u).named (· == name) = l.named (· == name) := by
  have hall : (l.fill u).heads = l.heads.filter fun h => (u h.tag).isNone := by
    have hnamed := named_fill hclear.apart (u := u) fun _ _ _ => rfl
    simpa [Layout.named] using hnamed
  rw [Layout.named, hall, List.filter_filter, Layout.named]
  refine List.filter_congr fun h hh => ?_
  cases hname : h.opening.name == name with
  | true => simp [hu h hh (by simpa using hname)]
  | false => simp

variable [DecidableEq α]

/-- Visiting the directives of some operations makes their calls one after the other. -/
theorem visits_variables {l : Layout α} (hnd : l.tags.Nodup) (hclear : l.Clear fun _ => true)
    (order : List Builtin) {host : Host} {limit : Nat} (hlimit : l.heads.length ≤ limit)
    {ops : List VariableOperation} (hops : (ops.map (·.name)).Nodup) {r : Rendering Machine}
    {u : Filling α} (htext : r.text.toList = (l.fill u).write)
    (hu : ∀ op ∈ ops, ∀ h ∈ l.heads, h.opening.name = op.name → u h.tag = none)
    {texts : List String} {m : Machine}
    (hrun : (callsIn l ops).mapM (fun c => c.1.evaluate host (c.2.token 0)) r.state = .ok texts m)
    (hfree : ∀ text ∈ texts, BraceFree text.toList) :
    ∃ v : Filling α, v.Assigns ((callsIn l ops).map (·.2)) texts ∧
      ((ops.map (·.directive host)).foldl (visit order limit) r).text.toList =
        (l.fill (u.then v)).write ∧
      ((ops.map (·.directive host)).foldl (visit order limit) r).state = m := by
  induction ops generalizing r u texts with
  | nil =>
    obtain ⟨rfl, rfl⟩ := mapM_nil_eq_ok.1 hrun
    exact ⟨fun _ => none, .nil, by rw [Filling.then_none]; exact htext, rfl⟩
  | cons op ops ih =>
    rw [List.map_cons, List.nodup_cons] at hops
    have hcalls : callsIn l (op :: ops) = (l.named (· == op.name)).map (op, ·) ++ callsIn l ops := rfl
    rw [hcalls, mapM_append_eq_ok] at hrun
    obtain ⟨texts₁, m₁, texts₂, hrun₁, hrun₂, rfl⟩ := hrun
    rw [List.mapM_map] at hrun₁
    -- The tokens of the first operation are worked off.
    obtain ⟨v₁, hv₁, htext₁, -, hstate₁⟩ := resolve_in_order
      (d := op.directive host) hnd (fun n hn _ => hclear n hn rfl) rfl (says_variable op host) htext
      (named_fill_of_none hclear (hu op List.mem_cons_self))
      (Nat.le_trans (List.length_filter_le _ _) hlimit) hrun₁
      fun text htext => hfree text (List.mem_append_left _ htext)
    have hvisit : visit order limit r (op.directive host) = resolve (op.directive host) limit r :=
      visit_eq_resolve rfl rfl
    rw [← hvisit] at htext₁ hstate₁
    -- Tokens of other operations are not filled by that.
    have hnone : ∀ op' ∈ ops, ∀ h ∈ l.heads, h.opening.name = op'.name → v₁ h.tag = none := by
      intro op' hop' h hh hname
      by_contra hne
      obtain ⟨h', hh', htag⟩ := hv₁.only _ hne
      obtain ⟨hh', hname'⟩ := mem_named.1 hh'
      rw [eq_of_tag_eq hnd hh' hh htag, hname] at hname'
      have hsame : op'.name = op.name := beq_iff_eq.1 hname'
      exact hops.1 (hsame ▸ List.mem_map_of_mem hop')
    obtain ⟨v₂, hv₂, htext₂, hstate₂⟩ := ih hops.2 htext₁
      (fun op' hop' h hh hname => by
        rw [Filling.then, hu op' (List.mem_cons_of_mem _ hop') h hh hname,
          hnone op' hop' h hh hname]
        rfl)
      (by rw [hstate₁]; exact hrun₂)
      fun text htext => hfree text (List.mem_append_right _ htext)
    refine ⟨v₁.then v₂, ?_, ?_, hstate₂⟩
    · have happend := hv₁.append hv₂ fun h hh => by
        obtain ⟨⟨op', h'⟩, hc, rfl⟩ := List.mem_map.1 hh
        obtain ⟨hop', hh', hname⟩ := mem_callsIn.1 hc
        exact hnone op' hop' h' hh' hname
      have hheads : (l.named (· == op.name)).map ((·.2) ∘ (op, ·)) = l.named (· == op.name) :=
        List.map_id _
      rw [hcalls, List.map_append, List.map_map, hheads]
      exact happend
    · rw [← Filling.then_then]
      exact htext₂

/-! ## §2 The calls of a template -/

/-- The calls of some operations that a template makes: all of one operation before those of the next,
and those of one operation in the order of the text. -/
def calls (template : String) (ops : List VariableOperation) : List (VariableOperation × Token) :=
  ops.flatMap fun op => (tokensNamed template op.name).map (op, ·)

omit [DecidableEq α] in
theorem mem_calls {template : String} {ops : List VariableOperation} {op : VariableOperation}
    {t : Token} : (op, t) ∈ calls template ops ↔ op ∈ ops ∧ t ∈ tokens template ∧ t.name = op.name := by
  simp [calls, tokensNamed]

omit [DecidableEq α] in
theorem calls_all (template : String) : calls template VariableOperation.all =
    calls template changing ++ calls template reading := by
  rw [all_eq, calls, List.flatMap_append]
  rfl

omit [DecidableEq α] in
theorem calls_of_layout {template : String} {l : Layout α} (hl : template.toList = l.write)
    (ops : List VariableOperation) :
    ∃ cs : List (VariableOperation × Head α × Nat),
      calls template ops = cs.map (fun c => (c.1, c.2.1.token c.2.2)) ∧
      callsIn l ops = cs.map (fun c => (c.1, c.2.1)) ∧ ∀ c ∈ cs, c.2 ∈ l.marks 0 := by
  refine ⟨ops.flatMap fun op =>
    ((l.marks 0).filter (·.1.opening.name == op.name)).map (op, ·), ?_, ?_, ?_⟩
  · rw [calls, List.map_flatMap]
    refine List.flatMap_congr fun op _ => ?_
    rw [tokensNamed, tokens_of_layout hl, List.filter_map, List.map_map, List.map_map]
    rfl
  · rw [callsIn, List.map_flatMap]
    refine List.flatMap_congr fun op _ => ?_
    rw [Layout.named, ← map_fst_marks l 0, List.filter_map, List.map_map, List.map_map]
    rfl
  · rintro ⟨op, m⟩ hc
    obtain ⟨op', -, hc⟩ := List.mem_flatMap.1 hc
    obtain ⟨m', hm', heq⟩ := List.mem_map.1 hc
    rw [← (Prod.mk.inj heq).2]
    exact (List.mem_filter.1 hm').1

/-- The directives on variables come first, and then those that only look something up and those on
text that is already there. -/
theorem evaluationOrder_builtin (host : Host) :
    evaluationOrder [] (builtin host) =
      VariableOperation.all.map (·.directive host) ++ (informational host ++ low host) := by
  rw [evaluationOrder_nil, builtin_eq, high, List.append_assoc]

theorem seedText?_variable (host : Host) (seed : Context) (op : VariableOperation) :
    seedText? (evaluationOrder [] (builtin host)) seed op.name = none := by
  rw [evaluationOrder_nil]
  exact seedText?_of_resultKeys (mem_builtin_variable op host) rfl seed

/-! ## §3 The rendering -/

omit [DecidableEq α] in
/-- The calls of a layout that fill it with texts give these texts as those of the template. -/
theorem texts_of_assigns {template : String} {l : Layout Span} (hl : template.toList = l.write)
    (htags : ∀ m ∈ l.marks 0, m.1.tag = (m.1.token m.2).span) {ops : List VariableOperation}
    {v : Filling Span} {texts : List String} (hv : v.Assigns ((callsIn l ops).map (·.2)) texts) :
    texts = (calls template ops).map fun c => v.textAt c.2.span := by
  obtain ⟨cs, hcalls, hcallsIn, hmarks⟩ := calls_of_layout hl ops
  rw [hv.texts, hcalls, hcallsIn, List.map_map, List.map_map, List.map_map]
  refine List.map_congr_left fun c hc => ?_
  exact congrArg v.textAt (htags c.2 (hmarks c hc))

/-- The calls that change the store, and then those that read it. -/
theorem performAll_changing_reading {template : String}
    (hcalls : ∀ c ∈ calls template VariableOperation.all, c.1.IsCall c.2) {items : Items}
    {records : List Record} (hrecords : recordsIn items = .ok records) (hfree : Free records) :
    ∃ texts items' records',
      (calls template changing).mapM (callOn Backend.memory) items = .ok texts items' ∧
      recordsIn items' = .ok records' ∧
      (calls template VariableOperation.all).mapM (callOn Backend.memory) items =
        .ok (texts ++ (calls template reading).map (answerIn records')) items' ∧
      ∀ text ∈ texts ++ (calls template reading).map (answerIn records'), BraceFree text.toList := by
  rw [calls_all] at hcalls ⊢
  obtain ⟨texts, items', records', hchange, htexts, hrecords', hfree'⟩ := performAll_memory
    (fun c hc => hcalls c (List.mem_append_left _ hc)) hrecords hfree
  have hread : (calls template reading).mapM (callOn Backend.memory) items' =
      .ok ((calls template reading).map (answerIn records')) items' := by
    refine readAll_memory (fun c hc => ?_) hrecords'
    simpa [reading] using (mem_calls.1 hc).1
  obtain ⟨answers, _, _, hanswers, hplain, -, -⟩ := performAll_memory
    (fun c hc => hcalls c (List.mem_append_right _ hc)) hrecords' hfree'
  rw [hread] at hanswers
  obtain ⟨rfl, -⟩ := EStateM.Result.ok.inj hanswers
  refine ⟨texts, items', records', hchange, hrecords',
    mapM_append_eq_ok.2 ⟨texts, items', _, hchange, hread, rfl⟩, fun text htext => ?_⟩
  rcases List.mem_append.1 htext with htext | htext
  · exact htexts text htext
  · exact hplain text htext

omit [DecidableEq α] in
/-- A token is called by one operation only. -/
theorem isCall_of_mem_calls {template : String}
    (htokens : ∀ t ∈ tokens template, ∃ op : VariableOperation, op.IsCall t)
    {ops : List VariableOperation} : ∀ c ∈ calls template ops, c.1.IsCall c.2 := by
  rintro ⟨op, t⟩ hc
  obtain ⟨-, ht, hname⟩ := mem_calls.1 hc
  obtain ⟨op', hop'⟩ := htokens t ht
  have hsame : op' = op := by
    have hnames : op'.name = op.name := hop'.name.symm.trans hname
    revert hnames
    cases op' <;> cases op <;> decide
  exact hsame ▸ hop'

/-- Rendering a template of calls makes them one after the other, and fills every token with what its
call gives. -/
theorem render_calls {host : Host} {limit : Nat} {template : String} {l : Layout α} (seed : Context)
    (hl : template.toList = l.write) (hnd : l.tags.Nodup) (hclear : l.Clear fun _ => true)
    (hnames : ∀ h ∈ l.heads, ∃ op : VariableOperation, h.opening.name = op.name)
    (hlimit : l.heads.length ≤ limit) {texts : List String} {m m' : Machine}
    (hrun : (calls template VariableOperation.all).mapM (fun c => c.1.evaluate host c.2) m =
      .ok texts m')
    (hplain : ∀ text ∈ texts, BraceFree text.toList) :
    ∃ v : Filling α, v.Assigns ((callsIn l VariableOperation.all).map (·.2)) texts ∧
      (∀ h ∈ l.heads, v h.tag ≠ none) ∧
      (render [] (builtin host) limit template seed m).text.toList = (l.fill v).write ∧
      (render [] (builtin host) limit template seed m).state = m' := by
  have hstart : applySeed (evaluationOrder [] (builtin host)) seed template = template := by
    refine applySeed_of_none fun t ht => ?_
    rw [tokens_of_layout hl] at ht
    obtain ⟨⟨h, p⟩, hm, rfl⟩ := List.mem_map.1 ht
    obtain ⟨op, hop⟩ := hnames h (mem_heads_of_mem_marks hm)
    rw [Head.token_name, hop]
    exact seedText?_variable host seed op
  have hrunIn : (callsIn l VariableOperation.all).mapM
      (fun c => c.1.evaluate host (c.2.token 0)) m = .ok texts m' := by
    obtain ⟨cs, hcs, hcsIn, -⟩ := calls_of_layout hl VariableOperation.all
    rw [hcs, List.mapM_map] at hrun
    rw [hcsIn, List.mapM_map]
    exact hrun
  have htextStart : (startIn (evaluationOrder [] (builtin host)) template seed m).text.toList =
      (l.fill fun _ => none).write := by
    rw [startIn, hstart, hl, fill_none]
  have hops : (VariableOperation.all.map (·.name)).Nodup := by decide
  obtain ⟨v, hv, htext, hstate⟩ := visits_variables hnd hclear (evaluationOrder [] (builtin host))
    hlimit hops htextStart (fun _ _ _ _ _ => rfl) hrunIn hplain
  rw [Filling.none_then] at htext
  have hall : ∀ h ∈ l.heads, v h.tag ≠ none := by
    intro h hh
    obtain ⟨op, hname⟩ := hnames h hh
    have hop : op ∈ VariableOperation.all := by cases op <;> decide
    exact hv.all h (List.mem_map.2 ⟨(op, h), mem_callsIn.2 ⟨hop, hh, hname⟩, rfl⟩)
  -- No token is left, so the other directives are passed over.
  have hheads : (l.fill v).heads = [] := heads_fill_eq_nil hall
  have hrest : render [] (builtin host) limit template seed m =
      (VariableOperation.all.map (·.directive host)).foldl
        (visit (evaluationOrder [] (builtin host)) limit)
        (startIn (evaluationOrder [] (builtin host)) template seed m) := by
    rw [render, renderIn_eq]
    conv_lhs => rw [evaluationOrder_builtin, List.foldl_append, ← evaluationOrder_builtin]
    refine visits_of_not_mentioned fun d _ t ht => ?_
    rw [tokens_of_layout htext] at ht
    obtain ⟨m, hm, -⟩ := List.mem_map.1 ht
    have hmem := mem_heads_of_mem_marks hm
    rw [hheads] at hmem
    exact absurd hmem List.not_mem_nil
  rw [hrest]
  exact ⟨v, hv, hall, htext, hstate⟩

/-- A template of calls is rendered by making first all that change the store, one operation after
the other, and then those that read it.  Setting and deleting leave no text, and what reads gives what
is in the store at the end, wherever in the template it stands. -/
theorem render_variables (host : Host) (limit : Nat) (template : String) (seed : Context)
    (m : Machine) {items : Items} {records : List Record} (hflat : Unnested template)
    (hbraces : OnlyInTokens isBrace template)
    (htokens : ∀ t ∈ tokens template, ∃ op : VariableOperation, op.IsCall t)
    (hitems : host.place.items? m = some items) (hrecords : recordsIn items = .ok records)
    (hfree : Free records) (hlimit : (tokens template).length ≤ limit) :
    let r := render [] (builtin host) limit template seed m
    ∃ (value : Token → String) (items' : Items) (records' : List Record),
      Patched 0 template.toList ((tokens template).map fun t => ⟨t.span, value t⟩) r.text.toList ∧
      host.place.items? r.state = some items' ∧ recordsIn items' = .ok records' ∧
      (calls template changing).mapM (callOn Backend.memory) items =
        .ok ((calls template changing).map fun c => value c.2) items' ∧
      ∀ t ∈ tokens template,
        (t.name = VariableOperation.set.name ∨ t.name = VariableOperation.delete.name →
          value t = "") ∧
        (t.name = VariableOperation.get.name →
          value t = valueIn records' (VariableOperation.get.subject t)) ∧
        (t.name = VariableOperation.list.name →
          value t = ", ".intercalate (records'.map (·.name))) := by
  intro r
  obtain ⟨cells, hcells, -, hcellTags⟩ := exists_leaves Token.span (fun _ h => h) hflat hbraces
  have hl : template.toList = (flat cells).write := by rw [write_flat, hcells]
  have htags : ∀ m ∈ (flat cells).marks 0, m.1.tag = (m.1.token m.2).span := by
    rw [marks_flat, List.forall_mem_map]
    exact fun m hm => hcellTags m.1 m.2 hm
  have hnd := nodup_tags_of_span htags
  have hcalls : ∀ c ∈ calls template VariableOperation.all, c.1.IsCall c.2 :=
    isCall_of_mem_calls htokens
  obtain ⟨texts, items', records', hchange, hrecords', hrun, hplain⟩ :=
    performAll_changing_reading hcalls hrecords hfree
  obtain ⟨m', hrun', hitems'⟩ := evaluateAll_of_performAll hcalls hitems hrun
  have hnames : ∀ h ∈ (flat cells).heads, ∃ op : VariableOperation, h.opening.name = op.name := by
    intro h hh
    rw [← map_fst_marks _ 0] at hh
    obtain ⟨m, hm, rfl⟩ := List.mem_map.1 hh
    obtain ⟨op, ht⟩ := htokens (m.1.token m.2) (by
      rw [tokens_of_layout hl]
      exact List.mem_map_of_mem (f := fun m : Head Span × Nat => m.1.token m.2) hm)
    exact ⟨op, ht.name⟩
  have hheads : (flat cells).heads.length ≤ limit := by
    rwa [length_tokens_of_layout hl] at hlimit
  obtain ⟨v, hv, hall, htext, hstate⟩ := render_calls seed hl hnd (clear_flat _ cells) hnames
    hheads hrun' hplain
  have hpatched := patched_fill v (flat cells) 0
  rw [edits_flat hl htags hall, ← hl, ← htext] at hpatched
  -- The texts are those of the calls that change the store, and then those of the others.
  have htexts := texts_of_assigns hl htags hv
  rw [calls_all, List.map_append] at htexts
  obtain ⟨hchanged, hread⟩ := List.append_inj' htexts (by simp)
  rw [hchanged] at hchange
  rw [← hstate] at hitems'
  refine ⟨fun t => v.textAt t.span, items', records', hpatched, hitems', hrecords', hchange,
    fun t ht => ⟨?_, ?_, ?_⟩⟩
  · rintro (hname | hname)
    · have hmem : (.set, t) ∈ calls template changing := mem_calls.2 ⟨by decide, ht, hname⟩
      exact text_of_performAll (fun t => v.textAt t.span) hchange _ hmem (.inl rfl)
    · have hmem : (.delete, t) ∈ calls template changing := mem_calls.2 ⟨by decide, ht, hname⟩
      exact text_of_performAll (fun t => v.textAt t.span) hchange _ hmem (.inr rfl)
  · intro hname
    have hmem : (.get, t) ∈ calls template reading := mem_calls.2 ⟨by decide, ht, hname⟩
    exact (List.map_inj_left.1 hread _ hmem).symm
  · intro hname
    have hmem : (.list, t) ∈ calls template reading := mem_calls.2 ⟨by decide, ht, hname⟩
    exact (List.map_inj_left.1 hread _ hmem).symm

/-- A variable that is read before the token that sets it. -/
theorem render_get_before_set :
    let template := "Dear {{get name}},{{set name:Ann}} {{vars}}"
    let m := stillMachine (withRecords .empty [⟨"name", "Bob", "Bob"⟩])
    ∃ value : Token → String,
      Patched 0 template.toList ((tokens template).map fun t => ⟨t.span, value t⟩)
        (render [] (builtin (stillHost default)) 3 template Dict.empty m).text.toList ∧
      ∀ t ∈ tokens template, t.name = "get" → value t = "Ann" := by
  intro template m
  have htokens : ∀ t ∈ tokens template, ∃ op ∈ VariableOperation.all, op.IsCall t := by
    decide +kernel
  obtain ⟨value, items', records', hpatched, -, hrecords', hchange, hvalue⟩ :=
    render_variables (stillHost default) 3 template Dict.empty m
      (by decide +kernel) (by decide +kernel) (fun t ht => (htokens t ht).imp fun _ h => h.2)
      (show (stillHost default).place.items? m = some m.items from rfl)
      (recordsIn_withRecords _ _) (by decide)
      (by decide +kernel)
  have hrun : (match (calls template changing).mapM (callOn Backend.memory) m.items with
      | .ok _ d => (recordsIn d).toOption
      | .error _ _ => none) = some [⟨"name", "Ann", "Bob"⟩] := by
    decide +kernel
  rw [hchange] at hrun
  simp only [hrecords', Except.toOption, Option.some.injEq] at hrun
  have hsubject : ∀ t ∈ tokens template, t.name = "get" →
      VariableOperation.get.subject t = "name" := by
    decide +kernel
  refine ⟨value, hpatched, fun t ht hname => ?_⟩
  rw [(hvalue t ht).2.1 hname, hsubject t ht hname, hrun]
  rfl

end Stencil.Engine
