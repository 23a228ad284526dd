import Mathlib.Data.List.Perm.Subperm
import Stencil.Proofs.Engine.Journal
import Stencil.Proofs.Engine.Stepping

/-!
# One Result for Tokens Written Alike

The result of a constant directive takes the place of every token that is written like the one it was
evaluated for.  Where braces stand around tokens only and no token of the directive stands in another,
those left are the ones that are written differently, each as it was: no token comes about and none is
lost.  So a directive is evaluated once for each way in which its tokens are written.

Main statement: `resolve_broadcast`.
-/

namespace Stencil.Template

open Stencil.Text

variable {α : Type}

/-! ## §1 Tokens of one name in a layout -/

/-- Whether no token of a name stands in the body of another. -/
def Piece.Apart (name : String) : Piece → Prop
  | .text _ => True
  | .token outer nested => outer.name = name → ∀ u ∈ nested, u.name ≠ name

instance (name : String) : (piece : Piece) → Decidable (piece.Apart name)
  | .text _ => inferInstanceAs (Decidable True)
  | .token outer nested =>
    inferInstanceAs (Decidable (outer.name = name → ∀ u ∈ nested, u.name ≠ name))

theorem apart_of_pieces {source name : String} {l : Layout α} (hl : source.toList = l.write)
    (h : ∀ piece ∈ pieces source, piece.Apart name) : l.Apart (· == name) := by
  intro n hn hname t ht
  -- A leaf of a node is, somewhere in the text, a token in the piece of that node.
  rw [Layout.nodes, ← map_fst_place Node.write 0] at hn
  obtain ⟨⟨n, p⟩, hplace, rfl⟩ := List.mem_map.1 hn
  have hpiece := (token_mem_pieces_iff hl).2 ⟨n, p, hplace, rfl⟩
  have hleaf : t.head ∈ (n.nested p).map Prod.fst := by
    rw [map_fst_nested]
    exact List.mem_map_of_mem ht
  obtain ⟨m, hm, hhead⟩ := List.mem_map.1 hleaf
  have hother := h _ hpiece (beq_iff_eq.1 hname) (m.1.token m.2)
    (List.mem_map_of_mem (f := fun m : Head α × Nat => m.1.token m.2) hm)
  rw [hhead] at hother
  exact beq_eq_false_iff_ne.2 hother

/-- A head as it is written. -/
def Head.raw (h : Head α) : String := .ofList h.chars

@[simp] theorem Head.token_raw (h : Head α) (pos : Nat) : (h.token pos).raw = h.raw := rfl

theorem map_raw_tokensNamed {source : String} {l : Layout α} (hl : source.toList = l.write)
    (name : String) :
    (tokensNamed source name).map (·.raw) = (l.named (· == name)).map Head.raw := by
  rw [tokensNamed_of_layout hl, Layout.named, ← map_fst_marks l 0, List.filter_map, List.map_map,
    List.map_map]
  rfl

/-- Whether a filling gives texts to just some heads, the same to all that are written alike. -/
structure Filling.Broadcasts (v : Filling α) (heads : List (Head α)) (value : String → String) :
    Prop where
  /-- Every head gets the text for what it is written as. -/
  all : ∀ h ∈ heads, ∃ text, v h.tag = some text ∧ value h.raw = .ofList text.1
  /-- Nothing else gets one. -/
  only : ∀ a, v a ≠ none → ∃ h ∈ heads, h.tag = a

theorem Filling.Broadcasts.nil (value : String → String) :
    Filling.Broadcasts (α := α) (fun _ => none) [] value :=
  ⟨by simp, by simp⟩

end Stencil.Template

namespace Stencil.Engine

open Stencil.Text Template

variable {α σ : Type}

theorem only_of_broadcasts {l : Layout α} (hnd : l.tags.Nodup) {names : String → Bool}
    {v : Filling α} {value : String → String} (hv : v.Broadcasts (l.named names) value) :
    v.Only names l := by
  intro h hh hne
  obtain ⟨h', hh', htag⟩ := hv.only _ hne
  obtain ⟨hmem, hname⟩ := mem_named.1 hh'
  rwa [← eq_of_tag_eq hnd hmem hh htag]

/-- If these are kept apart, the edits are those of all tokens of the names. -/
theorem edits_of_broadcasts {source name : String} {l : Layout α} (hl : source.toList = l.write)
    (hnd : l.tags.Nodup) (hapart : l.Apart (· == name)) {v : Filling α} {value : String → String}
    (hv : v.Broadcasts (l.named (· == name)) value) :
    l.edits v 0 = (tokensNamed source name).map fun t => ⟨t.span, value t.raw⟩ := by
  have honly := only_of_broadcasts hnd hv
  -- A token of the name that is filled holds none, so no edit is lost in a longer one.
  have houter : ∀ n ∈ l.nodes, v n.tag ≠ none → ∀ t ∈ n.leaves, v t.tag = none := by
    intro n hn hne t ht
    have hname := honly n.head (head_mem_heads hn) hne
    by_contra hleaf
    have hother := honly t.head (leaf_mem_heads hn ht) hleaf
    rw [Leaf.head_opening, hapart n hn hname t ht] at hother
    exact Bool.noConfusion hother
  rw [edits_eq_editsAt houter, tokensNamed_of_layout hl, List.map_map, ← List.filterMap_eq_map',
    List.filterMap_filter, editsAt]
  apply List.filterMap_congr
  rintro ⟨h, p⟩ hm
  have hmem := mem_heads_of_mem_marks hm
  dsimp only at hmem ⊢
  by_cases hname : (h.opening.name == name) = true
  · obtain ⟨text, htext, hvalue⟩ := hv.all h (mem_named.2 ⟨hmem, hname⟩)
    rw [htext, if_pos hname, Function.comp_apply, Head.token_raw, hvalue]
    rfl
  · have hnone : v h.tag = none := by
      by_contra hne
      exact hname (honly h hmem hne)
    rw [hnone, if_neg hname]
    rfl

variable [DecidableEq α]

/-! ## §2 One evaluation -/

/-- The result of a constant directive is put in the place of its tokens that are written like the one
it was evaluated for. -/
theorem resultFilling_tag {l : Layout α} (hnd : l.tags.Nodup) {d : Directive σ}
    (hd : d.constant = true) {head h : Head α} (hh : h ∈ l.named (· == d.name)) (text : PlainText) :
    resultFilling l d head text h.tag = if h.raw = head.raw then some text else none := by
  obtain ⟨hmem, hname⟩ := mem_named.1 hh
  have halike : alike d head h = true ↔ h.raw = head.raw := by
    rw [alike_of_constant hd, Head.raw, Head.raw, String.ofList_inj]
    exact and_iff_right (beq_iff_eq.1 hname)
  rw [resultFilling, fillingBy_tag hnd _ hmem]
  simp only [halike]

/-- It is put in the place of nothing else. -/
theorem exists_named_of_resultFilling {l : Layout α} {d : Directive σ} (hd : d.constant = true)
    {head : Head α} {text : PlainText} {a : α} (hne : resultFilling l d head text a ≠ none) :
    ∃ h ∈ l.named (· == d.name), h.tag = a := by
  obtain ⟨text', hv⟩ := Option.ne_none_iff_exists'.1 hne
  obtain ⟨h, hh, htag, hg⟩ := exists_head_of_fillingBy hv
  by_cases halike : alike d head h = true
  · exact ⟨h, mem_named.2 ⟨hh, beq_iff_eq.2 ((alike_of_constant hd).1 halike).1⟩, htag⟩
  · rw [if_neg halike] at hg
    exact absurd hg (by simp)

/-- Those are left that are written differently. -/
theorem named_resultFilling {l : Layout α} (hnd : l.tags.Nodup) {d : Directive σ}
    (hapart : l.Apart (· == d.name)) (hd : d.constant = true) (head : Head α) (text : PlainText) :
    (l.fill (resultFilling l d head text)).named (· == d.name) =
      (l.named (· == d.name)).filter fun h => h.raw != head.raw := by
  rw [named_fill hapart]
  · refine List.filter_congr fun h hh => ?_
    rw [resultFilling_tag hnd hd hh]
    by_cases hraw : h.raw = head.raw <;> simp [hraw]
  · intro h hh hne
    obtain ⟨h', hh', htag⟩ := exists_named_of_resultFilling hd hne
    obtain ⟨hmem, hname⟩ := mem_named.1 hh'
    rwa [← eq_of_tag_eq hnd hmem hh htag]

/-! ## §3 Working off a directive -/

/-- Whether evaluations are for some tokens, once for each way in which these are written and in their
order, with these results. -/
structure OncePerText (heads : List (Head α)) (es : List (Evaluation σ)) (value : String → String) :
    Prop where
  /-- What they are written as. -/
  raws : es.map (·.token.raw) = (heads.map Head.raw).eraseDups
  /-- Each is for one of the tokens, wherever that stands by then. -/
  tokens : ∀ e ∈ es, ∃ h ∈ heads, ∃ pos, e.token = h.token pos
  /-- The results. -/
  results : ∀ e ∈ es, value e.token.raw = e.outcome.text

omit [DecidableEq α] in
theorem OncePerText.nil (value : String → String) :
    OncePerText ([] : List (Head α)) ([] : List (Evaluation σ)) value :=
  ⟨rfl, by simp, by simp⟩

omit [DecidableEq α] in
theorem nodup_eraseDups : ∀ raws : List String, raws.eraseDups.Nodup
  | [] => by simp
  | raw :: raws => by
    rw [List.eraseDups_cons, List.nodup_cons]
    exact ⟨by simp, nodup_eraseDups _⟩
termination_by raws => raws.length
decreasing_by exact Nat.lt_succ_of_le (List.length_filter_le _ raws)

omit [DecidableEq α] in
theorem length_eraseDups_le (raws : List String) : raws.eraseDups.length ≤ raws.length :=
  ((nodup_eraseDups raws).subperm fun _ h => List.mem_eraseDups.1 h).length_le

omit [DecidableEq α] in
/-- The ways in which tokens are written: that of the first one, and those of the others that are written
differently. -/
theorem eraseDups_raws (head : Head α) (heads : List (Head α)) :
    ((head :: heads).map Head.raw).eraseDups =
      head.raw :: ((heads.filter fun h => h.raw != head.raw).map Head.raw).eraseDups := by
  have hfilter : (heads.map Head.raw).filter (fun raw => !raw == head.raw) =
      (heads.filter fun h => h.raw != head.raw).map Head.raw := by
    rw [List.filter_map]
    rfl
  rw [List.map_cons, List.eraseDups_cons, hfilter]

omit [DecidableEq α] in
/-- An evaluation for the first token, and those for the ones that are written differently. -/
theorem OncePerText.cons {head : Head α} {heads : List (Head α)} {e : Evaluation σ}
    {es : List (Evaluation σ)} {value : String → String} {pos : Nat} {text : String}
    (he : e.token = head.token pos) (htext : e.outcome.text = text)
    (h : OncePerText (heads.filter fun h => h.raw != head.raw) es value) :
    OncePerText (head :: heads) (e :: es)
      fun raw => if raw = head.raw then text else value raw := by
  have hraw : e.token.raw = head.raw := by rw [he, Head.token_raw]
  -- The later evaluations are for tokens that are written differently.
  refine ⟨?_, ?_, ?_⟩
  · rw [eraseDups_raws, List.map_cons, hraw, h.raws]
  · refine List.forall_mem_cons.2 ⟨⟨head, List.mem_cons_self, pos, he⟩, fun e' he' => ?_⟩
    obtain ⟨h', hh', pos', htoken⟩ := h.tokens e' he'
    exact ⟨h', List.mem_cons_of_mem _ (List.mem_filter.1 hh').1, pos', htoken⟩
  · refine List.forall_mem_cons.2 ⟨(if_pos hraw).trans htext.symm, fun e' he' => ?_⟩
    obtain ⟨h', hh', pos', htoken⟩ := h.tokens e' he'
    have hne : e'.token.raw ≠ head.raw := by
      rw [htoken, Head.token_raw]
      simpa using (List.mem_filter.1 hh').2
    rw [if_neg hne, h.results e' he']

/-- Putting the result in the place of the tokens written like one, and then filling those that are
left. -/
theorem broadcasts_then {l : Layout α} (hnd : l.tags.Nodup) {d : Directive σ}
    (hd : d.constant = true) {head : Head α} {text : PlainText}
    {v : Filling α} {value : String → String}
    (hv : v.Broadcasts ((l.named (· == d.name)).filter fun h => h.raw != head.raw) value) :
    ((resultFilling l d head text).then v).Broadcasts (l.named (· == d.name))
      fun raw => if raw = head.raw then .ofList text.1 else value raw := by
  refine ⟨fun h hh => ?_, fun a hne => ?_⟩
  -- The result counts first, for the tokens written like this one; the filling answers for the others.
  · rw [Filling.then, resultFilling_tag hnd hd hh]
    by_cases hraw : h.raw = head.raw
    · exact ⟨text, by simp [hraw], if_pos hraw⟩
    · rw [if_neg hraw, if_neg hraw, Option.none_or]
      exact hv.all h (List.mem_filter.2 ⟨hh, by simpa using hraw⟩)
  · by_cases hfirst : resultFilling l d head text a = none
    · rw [Filling.then, hfirst, Option.none_or] at hne
      obtain ⟨h, hh, htag⟩ := hv.only a hne
      exact ⟨h, (List.mem_filter.1 hh).1, htag⟩
    · exact exists_named_of_resultFilling hd hfirst

/-- A constant directive is evaluated once for each way in which its tokens are written, if they are kept
apart and no result holds a brace. -/
theorem broadcast_of_layout {d : Directive σ} (hd : d.constant = true) {l : Layout α}
    (hnd : l.tags.Nodup) (hapart : l.Apart (· == d.name)) {r : Rendering σ}
    (htext : r.text.toList = l.write) {limit : Nat}
    (hlimit : ((l.named (· == d.name)).map Head.raw).eraseDups.length ≤ limit)
    {es : List (Evaluation σ)} (hes : (resolve d limit r).evaluations = r.evaluations ++ es)
    (hfree : ∀ e ∈ es, BraceFree e.outcome.text.toList) :
    ∃ value v, OncePerText (l.named (· == d.name)) es value ∧
      v.Broadcasts (l.named (· == d.name)) value ∧
      (resolve d limit r).text.toList = (l.fill v).write := by
  -- What is left after an evaluation is a layout again, so the layout varies with the limit.
  induction limit generalizing l r es with
  | zero =>
    have hnil : l.named (· == d.name) = [] := by
      cases hnamed : l.named (· == d.name) with
      | nil => rfl
      | cons head heads =>
        rw [hnamed, eraseDups_raws, List.length_cons] at hlimit
        omega
    obtain rfl : es = [] := List.self_eq_append_right.1 hes
    rw [hnil]
    exact ⟨fun _ => "", _, .nil _, .nil _, by rw [fill_none]; exact htext⟩
  | succ limit ih =>
    cases hnamed : l.named (· == d.name) with
    | nil =>
      rw [resolve_of_named_nil htext hapart hnamed] at hes ⊢
      obtain rfl : es = [] := List.self_eq_append_right.1 hes
      exact ⟨fun _ => "", _, .nil _, .nil _, by rw [fill_none, htext]⟩
    | cons head heads =>
      obtain ⟨pos, hmark, -, hnext⟩ := exists_resolve_succ htext hapart hnamed
      rw [hnamed] at hlimit
      obtain ⟨es', hes', -⟩ := evaluations_resolve d limit (r.step d (head.token pos))
      rw [hnext, hes', evaluations_step, List.append_assoc, List.append_cancel_left_eq,
        List.singleton_append] at hes
      subst hes
      obtain ⟨hfreeFirst, hfree⟩ := List.forall_mem_cons.1 hfree
      -- The tokens written like the first give way to its result, and the others are as they were.
      obtain ⟨plain, hplain⟩ : ∃ plain : PlainText,
          (⟨d, head.token pos, r.context, r.state⟩ : Evaluation σ).outcome.text = .ofList plain.1 :=
        ⟨⟨_, hfreeFirst⟩, String.ofList_toList.symm⟩
      have htext' := toList_step htext hnd hmark hplain
      have hothers : (head :: heads).filter (fun h => h.raw != head.raw) =
          heads.filter fun h => h.raw != head.raw :=
        List.filter_cons_of_neg (by simp)
      have hleft := named_resultFilling hnd hapart hd head plain
      rw [hnamed, hothers] at hleft
      obtain ⟨value, v, honce, hv, hresolve⟩ := ih ((tags_fill_sublist _ l).nodup hnd)
        (hapart.fill _) htext' (by
          rw [eraseDups_raws, List.length_cons] at hlimit
          rw [hleft]
          omega) hes' hfree
      rw [hleft] at honce hv
      have hthen : ((resultFilling l d head plain).then v).Broadcasts _ _ :=
        broadcasts_then hnd hd (hnamed ▸ hothers ▸ hv)
      rw [hnext, hresolve, fill_fill]
      exact ⟨_, _, honce.cons rfl hplain, hnamed ▸ hthen, rfl⟩

/-- So no two of its evaluations are for tokens that are written alike. -/
theorem nodup_raws_of_layout {d : Directive σ} (hd : d.constant = true) {l : Layout α}
    (hnd : l.tags.Nodup) (hapart : l.Apart (· == d.name)) {r : Rendering σ}
    (htext : r.text.toList = l.write) {limit : Nat} (hlimit : l.heads.length ≤ limit)
    {es : List (Evaluation σ)} (hes : (resolve d limit r).evaluations = r.evaluations ++ es)
    (hfree : ∀ e ∈ es, BraceFree e.outcome.text.toList) : (es.map (·.token.raw)).Nodup := by
  have hnamed : (l.named (· == d.name)).length ≤ l.heads.length := List.length_filter_le _ _
  have hraws := length_eraseDups_le ((l.named (· == d.name)).map Head.raw)
  rw [List.length_map] at hraws
  obtain ⟨value, v, honce, -⟩ := broadcast_of_layout hd hnd hapart htext (by omega) hes hfree
  rw [honce.raws]
  exact nodup_eraseDups _

/-- **A constant directive is evaluated once for each way in which its tokens are written.**  In a text
whose braces stand around tokens, with no token of the directive in another and a limit of at least the
number of these ways, and as long as no result holds a brace, working it off evaluates it just once for
each, in the order in which they first occur, also in the bodies of other tokens.  Each evaluation is for a
token of the text, but for where that stands by then.  Every token gives way to the result for what it is
written as, all else is kept, and no token of the directive is left. -/
theorem resolve_broadcast {d : Directive σ} (hd : d.constant = true) {r : Rendering σ}
    (hclean : BraceClean r.text) (hapart : ∀ piece ∈ pieces r.text, piece.Apart d.name) {limit : Nat}
    (hlimit : ((tokensNamed r.text d.name).map (·.raw)).eraseDups.length ≤ limit) :
    ∃ es, (resolve d limit r).evaluations = r.evaluations ++ es ∧ Owned d es ∧
      ((∀ e ∈ es, BraceFree e.outcome.text.toList) →
        es.map (·.token.raw) = ((tokensNamed r.text d.name).map (·.raw)).eraseDups ∧
        (∀ e ∈ es, ∃ t ∈ tokensNamed r.text d.name, e.token = { t with span := e.token.span }) ∧
        ∃ value : String → String, (∀ e ∈ es, value e.token.raw = e.outcome.text) ∧
          Patched 0 r.text.toList ((tokensNamed r.text d.name).map fun t => ⟨t.span, value t.raw⟩)
            (resolve d limit r).text.toList ∧
          tokensNamed (resolve d limit r).text d.name = []) := by
  obtain ⟨es, hes, -, howned⟩ := evaluations_resolve d limit r
  refine ⟨es, hes, howned, fun hfree => ?_⟩
  obtain ⟨l, hl, hnd, -, -⟩ := exists_spanned_layout hclean
  have hapart := apart_of_pieces hl hapart
  rw [map_raw_tokensNamed hl] at hlimit ⊢
  obtain ⟨value, v, honce, hv, hresolve⟩ :=
    broadcast_of_layout hd hnd hapart hl hlimit hes hfree
  refine ⟨honce.raws, fun e he => ?_, value, honce.results, ?_, ?_⟩
  · obtain ⟨h, hh, pos, htoken⟩ := honce.tokens e he
    obtain ⟨hmem, hname⟩ := mem_named.1 hh
    obtain ⟨p, hmark, -⟩ := exists_token_of_mem_heads hl hmem
    refine ⟨h.token p, ?_, by rw [htoken]; rfl⟩
    rw [tokensNamed_of_layout hl]
    exact List.mem_map_of_mem (f := fun m : Head Span × Nat => m.1.token m.2)
      (List.mem_filter.2 ⟨hmark, hname⟩)
  · rw [← edits_of_broadcasts hl hnd hapart hv, hresolve, hl]
    exact patched_fill v l 0
  · have hnone : (l.fill v).named (· == d.name) = [] := by
      rw [named_fill hapart (only_of_broadcasts hnd hv), List.filter_eq_nil_iff]
      intro h hh
      obtain ⟨text, htext, -⟩ := hv.all h hh
      simp [htext]
    have hfirst := firstNamed_of_named hresolve (hapart.fill v)
    rw [hnone] at hfirst
    exact firstNamed_eq_none_iff.1 hfirst

/-- Three tokens that are written in two ways, one of them in the body of another token, and two results.
-/
theorem resolve_broadcast_counted :
    let d : Directive Nat := ⟨"x", "", [], [], true, fun _ _ n =>
      .ok (.ofText (if n = 0 then "first" else "later")) (n + 1)⟩
    let r : Rendering Nat := ⟨"{{x a}} {{y:{{x b}}}} {{x a}}", Dict.empty, 0, []⟩
    ∃ es, (resolve d 2 r).evaluations = es ∧ es.map (·.token.raw) = ["{{x a}}", "{{x b}}"] ∧
      ∃ value : String → String, (∀ e ∈ es, value e.token.raw = e.outcome.text) ∧
        Patched 0 r.text.toList
          [⟨⟨0, 7⟩, value "{{x a}}"⟩, ⟨⟨12, 19⟩, value "{{x b}}"⟩, ⟨⟨22, 29⟩, value "{{x a}}"⟩]
          (resolve d 2 r).text.toList := by
  intro d r
  have htokens : (tokensNamed r.text d.name).map (fun t => (t.span, t.raw)) =
      [(⟨0, 7⟩, "{{x a}}"), (⟨12, 19⟩, "{{x b}}"), (⟨22, 29⟩, "{{x a}}")] := by
    decide +kernel
  have hraws : ((tokensNamed r.text d.name).map (·.raw)).eraseDups = ["{{x a}}", "{{x b}}"] := by
    decide +kernel
  obtain ⟨es, hes, howned, hresults⟩ := resolve_broadcast (d := d) rfl (r := r) (by decide +kernel)
    (by decide +kernel) (show _ ≤ 2 by rw [hraws]; decide)
  have hfree : ∀ e ∈ es, BraceFree e.outcome.text.toList := by
    intro e he
    have htext : e.outcome.text = if e.state = 0 then "first" else "later" := by
      rw [Evaluation.outcome, Evaluation.answer, Evaluation.run, (howned e he).1]
      rfl
    rw [htext]
    split <;> decide
  obtain ⟨hmap, -, value, hvalue, hpatched, -⟩ := hresults hfree
  have hedits : (tokensNamed r.text d.name).map (fun t => (⟨t.span, value t.raw⟩ : Edit)) =
      [⟨⟨0, 7⟩, value "{{x a}}"⟩, ⟨⟨12, 19⟩, value "{{x b}}"⟩, ⟨⟨22, 29⟩, value "{{x a}}"⟩] := by
    have hmapped := congrArg (List.map fun m => (⟨m.1, value m.2⟩ : Edit)) htokens
    rwa [List.map_map] at hmapped
  rw [hedits] at hpatched
  exact ⟨es, hes, hmap.trans hraws, value, hvalue, hpatched⟩

end Stencil.Engine
