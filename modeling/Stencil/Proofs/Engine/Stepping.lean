import Mathlib.Data.List.Nodup
import Stencil.Engine
import Stencil.Proofs.Template.Unnested

/-!
# Steps of a Rendering on Layouts

As long as the text of a rendering is a layout and results hold no braces, every change of the text
is a filling of the layout.  What a step fills depends only on the heads of the layout and not on
where they stand.

Main statements: `toList_step` (one evaluation) and `toList_applySeed` (seeded values).
-/

namespace Stencil.Engine

open Stencil.Text Template

variable {α σ : Type}

/-! ## §1 Edits -/

theorem mem_heads_of_mem_marks {l : Layout α} {pos : Nat} {m : Head α × Nat}
    (hm : m ∈ l.marks pos) : m.1 ∈ l.heads := by
  rw [← map_fst_marks l pos]
  exact List.mem_map_of_mem hm

/-- Where no token is filled together with one in its body, the edits are those at all marks. -/
theorem edits_eq_editsAt {v : Filling α} {l : Layout α}
    (houter : ∀ n ∈ l.nodes, v n.tag ≠ none → ∀ t ∈ n.leaves, v t.tag = none) (pos : Nat) :
    l.edits v pos = editsAt v (l.marks pos) := by
  have hplace : ∀ n p, (n, p) ∈ place Node.write pos l →
      n.edits v p = editsAt v ((n.head, p) :: n.nested p) := by
    intro n p hmem
    have hn : n ∈ l.nodes := by
      rw [Layout.nodes, ← map_fst_place Node.write pos]
      exact List.mem_map_of_mem (f := Prod.fst) hmem
    rw [Node.edits]
    -- A token that is filled has no filled ones in its body, and the edits of another are those there.
    cases hv : v n.tag with
    | some text =>
      have hnested : editsAt v (n.nested p) = [] := by
        refine List.filterMap_eq_nil_iff.2 fun m hm => ?_
        have hfst : m.1 ∈ n.leaves.map Leaf.head := by
          rw [← map_fst_nested n p]
          exact List.mem_map_of_mem hm
        obtain ⟨t, ht, hhead⟩ := List.mem_map.1 hfst
        have hnone : v m.1.tag = none := by
          rw [← hhead]
          exact houter n hn (by simp [hv]) t ht
        simp [hnone]
      rw [editsAt_cons_some (h := n.head) hv, hnested]
    | none => rw [editsAt_cons_none (h := n.head) hv]
  rw [Layout.edits, Layout.marks, editsAt, List.filterMap_flatMap]
  exact List.flatMap_congr fun m hm => hplace m.1 m.2 hm

/-- Where every token is filled, the edits that fill a layout without nesting are those of all tokens.
-/
theorem edits_flat_marks {cells : List (Cell (Leaf α))} {pos : Nat} {f : Token → α}
    (htags : ∀ m ∈ (flat cells).marks pos, m.1.tag = f (m.1.token m.2)) {v : Filling α}
    (hall : ∀ h ∈ (flat cells).heads, v h.tag ≠ none) :
    (flat cells).edits v pos = (((flat cells).marks pos).map fun m => m.1.token m.2).map
      fun t => ⟨t.span, v.textAt (f t)⟩ := by
  have hleaves : ∀ n ∈ (flat cells).nodes, n.leaves = [] := fun n hn =>
    clear_flat (fun _ => true) cells n hn rfl
  rw [edits_eq_editsAt fun n hn _ t ht => by rw [hleaves n hn] at ht; exact absurd ht (by simp),
    List.map_map, ← List.filterMap_eq_map', editsAt]
  refine List.filterMap_congr fun m hm => ?_
  obtain ⟨text, htext⟩ := Option.ne_none_iff_exists'.1 (hall m.1 (mem_heads_of_mem_marks hm))
  have hvalue := Filling.textAt_of_some htext
  rw [htags m hm] at hvalue
  simp only [htext, Option.map_some, Function.comp_apply, hvalue]
  rfl

theorem edits_flat {template : String} {cells : List (Cell (Leaf α))} {f : Token → α}
    (hl : template.toList = (flat cells).write)
    (htags : ∀ m ∈ (flat cells).marks 0, m.1.tag = f (m.1.token m.2)) {v : Filling α}
    (hall : ∀ h ∈ (flat cells).heads, v h.tag ≠ none) :
    (flat cells).edits v 0 = (tokens template).map fun t => ⟨t.span, v.textAt (f t)⟩ := by
  rw [edits_flat_marks htags hall, tokens_of_layout hl]

theorem keepOuter_append {pos : Nat} {cs out : List Char} {edits : List Edit}
    (h : Patched pos cs edits out) {taken : Nat} (htaken : taken ≤ pos) (rest : List Edit) :
    ∃ taken', taken' ≤ pos + byteLength cs ∧
      keepOuter taken (edits ++ rest) = edits ++ keepOuter taken' rest := by
  induction h generalizing taken with
  | nil pos => exact ⟨taken, htaken, rfl⟩
  | keep c _ ih =>
    obtain ⟨taken', hle, hkeep⟩ := ih (Nat.le_add_right_of_le htaken)
    exact ⟨taken', by rw [byteLength_cons]; omega, hkeep⟩
  | @replace pos cs out edits old text _ _ ih =>
    obtain ⟨taken', hle, hkeep⟩ := ih (Nat.le_refl _)
    refine ⟨taken', by rw [byteLength_append]; omega, ?_⟩
    rw [List.cons_append, keepOuter, if_neg (Nat.not_lt.2 htaken), hkeep, List.cons_append]

theorem keepOuter_of_lt {taken : Nat} {edits : List Edit}
    (h : ∀ e ∈ edits, e.span.start < taken) (rest : List Edit) :
    keepOuter taken (edits ++ rest) = keepOuter taken rest := by
  induction edits with
  | nil => rfl
  | cons e edits ih =>
    rw [List.cons_append, keepOuter, if_pos (h e List.mem_cons_self)]
    exact ih fun f hf => h f (List.mem_cons_of_mem _ hf)

/-- Of the edits at the marks of a layout, those are kept that fill it. -/
theorem keepOuter_editsAt (v : Filling α) (l : Layout α) (pos taken : Nat) (htaken : taken ≤ pos) :
    keepOuter taken (editsAt v (l.marks pos)) = l.edits v pos := by
  induction l generalizing pos taken with
  | nil => rfl
  | cons cell l ih =>
    cases cell with
    | char c hc => exact ih (pos + c.utf8Size) taken (Nat.le_add_right_of_le htaken)
    | token n =>
      have hmarks : Layout.marks (.token n :: l) pos =
          (n.head, pos) :: (n.nested pos ++ Layout.marks l (pos + byteLength n.write)) := rfl
      have hedits : Layout.edits v (.token n :: l) pos =
          n.edits v pos ++ Layout.edits v l (pos + byteLength n.write) := rfl
      have happend (ms ms' : List (Head α × Nat)) :
          editsAt v (ms ++ ms') = editsAt v ms ++ editsAt v ms' := List.filterMap_append
      rw [hmarks, hedits, Node.edits]
      -- A token that is filled takes those in its body with it; else these are edited one by one.
      cases hv : v n.tag with
      | some text =>
        have hkept : ¬(n.head.edit pos text).span.start < taken := Nat.not_lt.2 htaken
        rw [editsAt_cons_some (h := n.head) hv, keepOuter, if_neg hkept, happend, keepOuter_of_lt]
        · exact congrArg (_ :: ·) (ih _ _ (Nat.le_refl _))
        · intro e he
          obtain ⟨m, hm, hsome⟩ := List.mem_filterMap.1 he
          obtain ⟨x, -, rfl⟩ := Option.map_eq_some_iff.1 hsome
          exact (bounds_of_mem_nested hm).2
      | none =>
        obtain ⟨taken', hle, hkeep⟩ := keepOuter_append (patched_node_fill v n pos) htaken
          (editsAt v (Layout.marks l (pos + byteLength n.write)))
        rw [editsAt_cons_none (h := n.head) hv, happend, hkeep, ih _ _ hle]

theorem length_leaf_lt {n : Node α} {t : Leaf α} (ht : t ∈ n.leaves) :
    t.head.chars.length < n.head.chars.length := by
  obtain ⟨tag, o, interior⟩ := n
  cases interior with
  | closed => simp [Node.leaves] at ht
  | plain body => simp [Node.leaves] at ht
  | cells body =>
    obtain ⟨cell, hcell, hsome⟩ := List.mem_filterMap.1 ht
    cases cell with
    | char c hc => simp [Cell.token?] at hsome
    | token t' =>
      obtain rfl : t' = t := Option.some.inj hsome
      obtain ⟨before, after, rfl⟩ := List.append_of_mem hcell
      have hlength : t'.write.length ≤
          (writeCells Leaf.write (before ++ .token t' :: after)).length := by
        simp only [writeCells_append, writeCells_token, List.length_append]
        omega
      change t'.write.length < (o.write (some _)).length
      rw [Opening.write]
      simp only [List.length_cons, List.length_append]
      omega

/-! ## §2 Fillings chosen by heads -/

theorem eq_of_tag_eq {l : Layout α} (hnd : l.tags.Nodup) {h h' : Head α} (hh : h ∈ l.heads)
    (hh' : h' ∈ l.heads) (htag : h.tag = h'.tag) : h = h' :=
  List.inj_on_of_nodup_map hnd hh hh' htag

variable [DecidableEq α]

/-- The filling that gives the tag of each head of a layout a text by what the head is. -/
def fillingBy (l : Layout α) (g : Head α → Option PlainText) : Filling α := fun a =>
  (l.heads.find? fun h => h.tag = a).bind g

theorem fillingBy_tag {l : Layout α} (hnd : l.tags.Nodup) (g : Head α → Option PlainText)
    {h : Head α} (hh : h ∈ l.heads) : fillingBy l g h.tag = g h := by
  have hfind : (l.heads.find? fun h' => h'.tag = h.tag) = some h := by
    cases hf : l.heads.find? fun h' => h'.tag = h.tag with
    | none => simpa using List.find?_eq_none.1 hf h hh
    | some h' =>
      have htag : h'.tag = h.tag := by simpa using List.find?_some hf
      rw [eq_of_tag_eq hnd (List.mem_of_find?_eq_some hf) hh htag]
  rw [fillingBy, hfind]
  rfl

theorem exists_head_of_fillingBy {l : Layout α} {g : Head α → Option PlainText} {a : α}
    {text : PlainText} (hv : fillingBy l g a = some text) :
    ∃ h ∈ l.heads, h.tag = a ∧ g h = some text := by
  obtain ⟨h, hf, hg⟩ := Option.bind_eq_some_iff.1 hv
  exact ⟨h, List.mem_of_find?_eq_some hf, by simpa using List.find?_some hf, hg⟩

theorem editsAt_fillingBy {l : Layout α} (hnd : l.tags.Nodup) (g : Head α → Option PlainText)
    (pos : Nat) : editsAt (fillingBy l g) (l.marks pos) =
      (l.marks pos).filterMap fun (h, p) => (g h).map (h.edit p) := by
  refine List.filterMap_congr fun m hm => ?_
  exact congrArg (Option.map (m.1.edit m.2)) (fillingBy_tag hnd g (mem_heads_of_mem_marks hm))

/-! ## §3 One evaluation -/

/-- What a result is put in the place of when a directive is evaluated for a head: that head, or all
heads written alike when the directive is constant. -/
def alike (d : Directive σ) (h h' : Head α) : Bool :=
  if d.constant then h'.opening.name == d.name && h'.chars == h.chars else h'.tag = h.tag

/-- The filling that puts a result in place. -/
def resultFilling (l : Layout α) (d : Directive σ) (h : Head α) (text : PlainText) : Filling α :=
  fillingBy l fun h' => if alike d h h' then some text else none

theorem alike_of_constant {d : Directive σ} (hd : d.constant = true) {h h' : Head α} :
    alike d h h' = true ↔ h'.opening.name = d.name ∧ h'.chars = h.chars := by
  simp [alike, hd]

theorem alike_of_not_constant {d : Directive σ} (hd : d.constant = false) {h h' : Head α} :
    alike d h h' = true ↔ h'.tag = h.tag := by
  simp [alike, hd]

/-- A head and one in its body are not both put in place. -/
theorem not_alike_leaf {l : Layout α} (hnd : l.tags.Nodup) {d : Directive σ} {h : Head α}
    {n : Node α} (hn : n ∈ l.nodes) (halike : alike d h n.head = true)
    {t : Leaf α} (ht : t ∈ n.leaves) : ¬alike d h t.head = true := by
  intro halike'
  have hlt := length_leaf_lt ht
  cases hd : d.constant with
  | true =>
    rw [alike_of_constant hd] at halike halike'
    rw [halike'.2, halike.2] at hlt
    omega
  | false =>
    rw [alike_of_not_constant hd] at halike halike'
    rw [eq_of_tag_eq hnd (leaf_mem_heads hn ht) (head_mem_heads hn) (halike'.trans halike.symm)] at hlt
    omega

/-- So a token that is filled with a result has none in its body that is. -/
theorem resultFilling_leaf {l : Layout α} (hnd : l.tags.Nodup) {d : Directive σ} {h : Head α}
    {text : PlainText} {n : Node α} (hn : n ∈ l.nodes) (hv : resultFilling l d h text n.tag ≠ none)
    {t : Leaf α} (ht : t ∈ n.leaves) : resultFilling l d h text t.tag = none := by
  rw [resultFilling, ← Node.head_tag, fillingBy_tag hnd _ (head_mem_heads hn)] at hv
  rw [resultFilling, ← Leaf.head_tag, fillingBy_tag hnd _ (leaf_mem_heads hn ht)]
  by_cases halike : alike d h n.head = true
  · exact if_neg (not_alike_leaf hnd hn halike ht)
  · exact absurd (if_neg halike) hv

/-- What is filled with a result is a head alike. -/
theorem exists_alike_of_resultFilling {l : Layout α} {d : Directive σ} {h : Head α}
    {text text' : PlainText} {a : α} (hv : resultFilling l d h text a = some text') :
    text' = text ∧ ∃ h' ∈ l.heads, h'.tag = a ∧ alike d h h' = true := by
  obtain ⟨h', hh', htag, hg⟩ := exists_head_of_fillingBy hv
  by_cases halike : alike d h h' = true
  · rw [if_pos halike] at hg
    exact ⟨(Option.some.inj hg).symm, h', hh', htag, halike⟩
  · rw [if_neg halike] at hg
    exact absurd hg (by simp)

/-- Heads alike have the name of the directive and are written alike. -/
theorem chars_eq_of_alike {l : Layout α} (hnd : l.tags.Nodup) {d : Directive σ} {h h' : Head α}
    (hh : h ∈ l.heads) (hh' : h' ∈ l.heads) (hname : h.opening.name = d.name)
    (halike : alike d h h' = true) : h'.opening.name = d.name ∧ h'.chars = h.chars := by
  cases hd : d.constant with
  | true => exact (alike_of_constant hd).1 halike
  | false =>
    obtain rfl := eq_of_tag_eq hnd hh' hh ((alike_of_not_constant hd).1 halike)
    exact ⟨hname, rfl⟩

/-- In a list with distinct keys, filtering by the key of an element leaves that element. -/
theorem filter_eq_singleton {β : Type} {f : β → α} {xs : List β} (hnd : (xs.map f).Nodup) {x : β}
    (hx : x ∈ xs) : (xs.filter fun y => f y = f x) = [x] := by
  induction xs with
  | nil => simp at hx
  | cons y ys ih =>
    rw [List.map_cons, List.nodup_cons] at hnd
    rcases List.mem_cons.1 hx with rfl | hx
    · rw [List.filter_cons_of_pos (by simp), List.filter_eq_nil_iff.2]
      intro z hz
      simp only [decide_eq_true_eq]
      intro heq
      exact hnd.1 (heq ▸ List.mem_map_of_mem hz)
    · have hne : f y ≠ f x := fun heq => hnd.1 (heq ▸ List.mem_map_of_mem hx)
      rw [List.filter_cons_of_neg (by simpa using hne), ih hnd.2 hx]

/-- The edits for a result are those that fill the heads alike. -/
theorem editsFor_eq {source : String} {l : Layout α} (hl : source.toList = l.write)
    (hnd : l.tags.Nodup) {d : Directive σ} {h : Head α} {pos : Nat} (hmem : (h, pos) ∈ l.marks 0)
    (text : PlainText) :
    editsFor d source (h.token pos) (.ofList text.1) = l.edits (resultFilling l d h text) 0 := by
  have hfill : l.edits (resultFilling l d h text) 0 =
      ((l.marks 0).filter fun m => alike d h m.1).map fun m => m.1.edit m.2 text := by
    rw [edits_eq_editsAt fun n hn hv t ht => resultFilling_leaf hnd hn hv ht, resultFilling,
      editsAt_fillingBy hnd, ← List.filterMap_eq_map', List.filterMap_filter]
    refine List.filterMap_congr fun m _ => ?_
    by_cases halike : alike d h m.1 = true
    · simp [halike]
    · simp [halike]
  rw [hfill, editsFor]
  -- Of a constant directive these are the heads written alike, else it is the one with the tag.
  cases hd : d.constant with
  | true =>
    simp only [↓reduceIte]
    rw [tokensNamed_of_layout hl, List.filter_map, List.map_map, List.filter_filter]
    refine congrArg₂ List.map rfl (List.filter_congr fun m _ => ?_)
    rw [Bool.eq_iff_iff, alike_of_constant hd]
    simp [Head.token, String.ofList_inj, and_comm]
  | false =>
    simp only [Bool.false_eq_true, ↓reduceIte]
    have hkeys : ((l.marks 0).map fun m => m.1.tag).Nodup := by
      have := hnd
      rwa [Layout.tags, ← map_fst_marks l 0, List.map_map] at this
    have hfilter : ((l.marks 0).filter fun m => alike d h m.1) = [(h, pos)] := by
      rw [← filter_eq_singleton hkeys hmem]
      refine List.filter_congr fun m _ => ?_
      rw [Bool.eq_iff_iff, alike_of_not_constant hd, decide_eq_true_eq]
    rw [hfilter]
    rfl

/-- Evaluating a directive fills its layout with the result, if that holds no brace. -/
theorem toList_step {r : Rendering σ} {l : Layout α} (hl : r.text.toList = l.write)
    (hnd : l.tags.Nodup) {d : Directive σ} {h : Head α} {pos : Nat} (hmem : (h, pos) ∈ l.marks 0)
    {text : PlainText}
    (htext : (⟨d, h.token pos, r.context, r.state⟩ : Evaluation σ).outcome.text = .ofList text.1) :
    (r.step d (h.token pos)).text.toList = (l.fill (resultFilling l d h text)).write := by
  have hpatched := patched_fill (resultFilling l d h text) l 0
  rw [← hl, ← editsFor_eq hl hnd hmem] at hpatched
  have hstep : (r.step d (h.token pos)).text =
      splice r.text (editsFor d r.text (h.token pos) (.ofList text.1)) := by
    rw [← htext]
    rfl
  rw [hstep, splice_eq_of_patched hpatched, String.toList_ofList]

/-- The head that comes first is filled with the result, and all that are filled with it have its
name and arguments. -/
theorem resultFilling_spec {l : Layout α} (hnd : l.tags.Nodup) {d : Directive σ} {h : Head α}
    (hh : h ∈ l.heads) (hname : h.opening.name = d.name) (text : PlainText) :
    resultFilling l d h text h.tag = some text ∧
      ∀ a text', resultFilling l d h text a = some text' → text' = text ∧
        ∃ h' ∈ l.heads, h'.tag = a ∧ h'.opening.name = d.name ∧
          h'.opening.args = h.opening.args := by
  constructor
  · rw [resultFilling, fillingBy_tag hnd _ hh]
    refine if_pos ?_
    cases hd : d.constant with
    | true => exact (alike_of_constant hd).2 ⟨hname, rfl⟩
    | false => exact (alike_of_not_constant hd).2 rfl
  · intro a text' hv
    obtain ⟨htext, h', hh', htag, halike⟩ := exists_alike_of_resultFilling hv
    obtain ⟨hname', hchars⟩ := chars_eq_of_alike hnd hh hh' hname halike
    exact ⟨htext, h', hh', htag, hname', congrArg Token.args (token_of_chars_eq hchars 0)⟩

section Resolve

variable {r : Rendering σ} {d : Directive σ} {l : Layout α} (htext : r.text.toList = l.write)
  (hapart : l.Apart (· == d.name))
include htext hapart

omit [DecidableEq α] in
/-- A directive without tokens in the layout has nothing to be worked off. -/
theorem resolve_of_named_nil (hnamed : l.named (· == d.name) = []) (limit : Nat) :
    resolve d limit r = r := by
  have hfirst := firstNamed_of_named htext hapart
  rw [hnamed] at hfirst
  cases limit with
  | zero => rfl
  | succ limit => simp only [resolve, hfirst]

omit [DecidableEq α] in
/-- Otherwise it is evaluated for its first token before the rest is worked off. -/
theorem exists_resolve_succ {head : Head α} {heads : List (Head α)}
    (hnamed : l.named (· == d.name) = head :: heads) :
    ∃ pos, (head, pos) ∈ l.marks 0 ∧ head.opening.name = d.name ∧
      ∀ limit, resolve d (limit + 1) r = resolve d limit (r.step d (head.token pos)) := by
  have hfirst := firstNamed_of_named htext hapart
  rw [hnamed] at hfirst
  obtain ⟨pos, nested, hmark, hfirst⟩ := hfirst
  have hmem : head ∈ l.named (· == d.name) := by
    rw [hnamed]
    exact List.mem_cons_self
  exact ⟨pos, hmark, beq_iff_eq.1 (mem_named.1 hmem).2, fun limit => by simp only [resolve, hfirst]⟩

end Resolve

theorem context_step (r : Rendering σ) (d : Directive σ) (t : Token) :
    (r.step d t).context = Context.merge r.context
      (⟨d, t, r.context, r.state⟩ : Evaluation σ).outcome.fields := rfl

/-- Whether what a directive does is independent of where its token stands. -/
def Placeless (d : Directive σ) : Prop :=
  ∀ (t : Token) (span : Span), d.apply { t with span := span } = d.apply t

omit [DecidableEq α] in
/-- In contexts and states that are the same, a directive does the same wherever its token stands. -/
theorem Placeless.run_eq {d : Directive σ} (hd : Placeless d) (head : Head α) (pos pos' : Nat)
    (ctx : Context) (s : σ) : (⟨d, head.token pos, ctx, s⟩ : Evaluation σ).run =
      (⟨d, head.token pos', ctx, s⟩ : Evaluation σ).run := by
  have happly : d.apply (head.token pos) = d.apply (head.token pos') :=
    hd (head.token pos') (head.token pos).span
  rw [Evaluation.run, Evaluation.run, happly]

/-! ## §4 Seeded values -/

/-- A key is resolved if the context has a value for it, other than no text for the user's input. -/
theorem isResolved_iff_exists {ctx : Context} {key : String} : ctx.isResolved key = true ↔
    ∃ v, ctx.get? key = some v ∧ (key = Context.inputKey → v ≠ .text "") := by
  unfold Context.isResolved
  cases ctx.get? key with
  | none => simp
  | some v => cases v <;> simp [imp_iff_not_or]

theorem exists_of_isResolved {ctx : Context} {key : String} (h : ctx.isResolved key = true) :
    ∃ v, ctx.get? key = some v := by
  obtain ⟨v, hv, -⟩ := isResolved_iff_exists.1 h
  exact ⟨v, hv⟩

/-- Any key but that of the user's input is resolved by whatever value it has. -/
theorem isResolved_iff {ctx : Context} {key : String} (hkey : key ≠ Context.inputKey) :
    ctx.isResolved key = true ↔ ctx.get? key ≠ none := by
  rw [isResolved_iff_exists, Option.ne_none_iff_exists']
  exact exists_congr fun v => and_iff_left fun h => absurd h hkey

/-- The text that the seed has for the tokens of a name: that of the primary key of their directive.
-/
def seedText? (order : List (Directive σ)) (ctx : Context) (name : String) : Option String := do
  let d ← Directive.find? order name
  let key ← d.resultKeys.head?
  if Context.isResolved ctx key then Context.text? ctx key else none

/-- The edit of a token that has a seeded value puts that in its place. -/
theorem seededEdit?_eq (order : List (Directive σ)) (ctx : Context) (t : Token) :
    seededEdit? order ctx t = (seedText? order ctx t.name).map (⟨t.span, ·⟩) := by
  unfold seededEdit? seedText?
  cases hd : Directive.find? order t.name with
  | none => rfl
  | some d =>
    cases hk : d.resultKeys.head? with
    | none => simp [hk]
    | some key =>
      by_cases hresolved : Context.isResolved ctx key = true
      · simp only [Option.bind_eq_bind, Option.bind_some, hk, hresolved, ↓reduceIte]
        cases Context.text? ctx key <;> rfl
      · simp [hk, hresolved]

/-- A text as a text without braces, if it holds none. -/
def plainText? (s : String) : Option PlainText :=
  if h : BraceFree s.toList then some ⟨s.toList, h⟩ else none

theorem plainText?_of_braceFree {s : String} (h : BraceFree s.toList) :
    plainText? s = some ⟨s.toList, h⟩ :=
  dif_pos h

theorem eq_of_plainText? {s : String} {text : PlainText} (h : plainText? s = some text) :
    s = .ofList text.1 := by
  unfold plainText? at h
  split at h
  · cases h
    simp
  · exact absurd h (by simp)

/-- The filling that the seed gives a layout. -/
def seedFilling (l : Layout α) (order : List (Directive σ)) (ctx : Context) : Filling α :=
  fillingBy l fun h => (seedText? order ctx h.opening.name).bind plainText?

/-- Replacing tokens by seeded values fills the layout, if these values hold no braces. -/
theorem toList_applySeed {template : String} {l : Layout α} (hl : template.toList = l.write)
    (hnd : l.tags.Nodup) {order : List (Directive σ)} {ctx : Context}
    (hfree : ∀ h ∈ l.heads, ∀ s, seedText? order ctx h.opening.name = some s →
      BraceFree s.toList) :
    (applySeed order ctx template).toList = (l.fill (seedFilling l order ctx)).write := by
  have hedits : (tokens template).filterMap (seededEdit? order ctx) =
      editsAt (seedFilling l order ctx) (l.marks 0) := by
    rw [seedFilling, editsAt_fillingBy hnd, tokens_of_layout hl, List.filterMap_map]
    apply List.filterMap_congr
    rintro ⟨h, p⟩ hm
    rw [Function.comp_apply, seededEdit?_eq, Head.token_name]
    dsimp only
    cases hs : seedText? order ctx h.opening.name with
    | none => rfl
    | some s =>
      have hplain := hfree h (mem_heads_of_mem_marks hm) s hs
      simp [plainText?_of_braceFree hplain, Head.edit]
  have hpatched := patched_fill (seedFilling l order ctx) l 0
  rw [← hl, ← keepOuter_editsAt _ l 0 0 (Nat.le_refl 0), ← hedits] at hpatched
  rw [applySeed, splice_eq_of_patched hpatched, String.toList_ofList]

theorem applySeed_of_none {template : String} {order : List (Directive σ)} {ctx : Context}
    (h : ∀ t ∈ tokens template, seedText? order ctx t.name = none) :
    applySeed order ctx template = template := by
  have hnone : (tokens template).filterMap (seededEdit? order ctx) = [] := by
    refine List.filterMap_eq_nil_iff.2 fun t ht => ?_
    rw [seededEdit?_eq, h t ht]
    rfl
  rw [applySeed, hnone, keepOuter, splice_nil]

end Stencil.Engine
