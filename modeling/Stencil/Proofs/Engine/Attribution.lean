import Stencil.Proofs.Engine.Invariants
import Stencil.Proofs.Template.Closing

/-!
# Where the Texts of a Rendering Come From

The text that takes the place of a token comes from the seed or from one evaluation.  That was made for
the token as it was written then: with the texts in its body that had taken the places of others.
Tokens share an evaluation only if its directive is constant, and of the tokens of one name those that
end first are evaluated first.  So it can be told from the list of evaluations which one is whose.

Main statement: `exists_attributed`.
-/

namespace Stencil.Engine

open Stencil.Text Template

variable {α σ : Type}

/-! ## §1 Heads as they are written -/

/-- The heads of a layout, filled or not, each as it is written with what a filling puts in its body. -/
def written (u : Filling α) (l : Layout α) : List (Head α) :=
  l.nodes.flatMap fun n => (n.fill u).head :: n.leaves.map Leaf.head

theorem map_written (u : Filling α) (l : Layout α) :
    (written u l).map (fun h => (h.tag, h.opening)) = l.heads.map fun h => (h.tag, h.opening) := by
  rw [written, Layout.heads, List.map_flatMap, List.map_flatMap]
  rfl

theorem exists_written {u : Filling α} {l : Layout α} {h : Head α} (hh : h ∈ l.heads) :
    ∃ h' ∈ written u l, h'.tag = h.tag ∧ h'.opening = h.opening := by
  have hmem : (h.tag, h.opening) ∈ (written u l).map fun h => (h.tag, h.opening) := by
    rw [map_written]
    exact List.mem_map_of_mem (f := fun h : Head α => (h.tag, h.opening)) hh
  obtain ⟨h', hh', heq⟩ := List.mem_map.1 hmem
  exact ⟨h', hh', congrArg Prod.fst heq, congrArg Prod.snd heq⟩

theorem exists_of_mem_written {u : Filling α} {l : Layout α} {h : Head α} (hh : h ∈ written u l) :
    ∃ h₀ ∈ l.heads, h₀.tag = h.tag ∧ h₀.opening = h.opening := by
  have hmem : (h.tag, h.opening) ∈ l.heads.map fun h => (h.tag, h.opening) := by
    rw [← map_written u]
    exact List.mem_map_of_mem (f := fun h : Head α => (h.tag, h.opening)) hh
  obtain ⟨h₀, hh₀, heq⟩ := List.mem_map.1 hmem
  exact ⟨h₀, hh₀, congrArg Prod.fst heq, congrArg Prod.snd heq⟩

theorem mem_written_of_mem_heads_fill {u : Filling α} {l : Layout α} {h : Head α}
    (hh : h ∈ (l.fill u).heads) : h ∈ written u l := by
  rw [Layout.heads, nodes_fill] at hh
  obtain ⟨n', hn', hh⟩ := List.mem_flatMap.1 hh
  obtain ⟨n, hn, rfl⟩ := List.mem_map.1 hn'
  refine List.mem_flatMap.2 ⟨n, (List.mem_filter.1 hn).1, ?_⟩
  rcases List.mem_cons.1 hh with rfl | hh
  · exact List.mem_cons_self
  · rw [leaves_fill] at hh
    obtain ⟨t, ht, rfl⟩ := List.mem_map.1 hh
    exact List.mem_cons_of_mem _ (List.mem_map_of_mem (List.mem_filter.1 ht).1)

/-- A head whose body is text is written as it was. -/
theorem mem_written_of_isPlain {u : Filling α} {l : Layout α} {h : Head α} (hh : h ∈ l.heads)
    (hplain : h.IsPlain) : h ∈ written u l := by
  obtain ⟨n, hn, hh⟩ := List.mem_flatMap.1 hh
  refine List.mem_flatMap.2 ⟨n, hn, ?_⟩
  rcases List.mem_cons.1 hh with rfl | hh
  · rw [node_fill_of_leaves_eq_nil (leaves_of_isPlain hplain)]
    exact List.mem_cons_self
  · exact List.mem_cons_of_mem _ hh

section Nodup

variable {l : Layout α} (hnd : l.tags.Nodup)
include hnd

theorem eq_of_mem_written {u : Filling α} {h h' : Head α} (hh : h ∈ written u l)
    (hh' : h' ∈ written u l) (htag : h.tag = h'.tag) : h = h' := by
  have hkeys : ((written u l).map Head.tag).Nodup := by
    have htags := congrArg (List.map Prod.fst) (map_written u l)
    rw [List.map_map, List.map_map] at htags
    exact htags ▸ hnd
  exact List.inj_on_of_nodup_map hkeys hh hh' htag

/-- A tag is found in one outer token only. -/
theorem node_eq_of_tag {n n' : Node α} (hn : n ∈ l.nodes) (hn' : n' ∈ l.nodes) {h h' : Head α}
    (hh : h ∈ n.heads) (hh' : h' ∈ n'.heads) (htag : h.tag = h'.tag) : n = n' := by
  rw [Layout.tags, Layout.heads, List.map_flatMap, List.nodup_flatMap] at hnd
  have : Std.Symm (Function.onFun List.Disjoint fun n : Node α => n.heads.map Head.tag) :=
    ⟨fun _ _ h _ ha hb => h hb ha⟩
  by_contra hne
  refine hnd.2.forall hn hn' hne (List.mem_map_of_mem hh) ?_
  rw [htag]
  exact List.mem_map_of_mem hh'

variable [DecidableEq α] {u : Filling α} {d : Directive σ} {head : Head α} {text : PlainText}

/-- Once a token has been filled nothing in its body is. -/
theorem resultFilling_leaf_of_filled {n : Node α} (hn : n ∈ l.nodes)
    (hfilled : (u.then (resultFilling (l.fill u) d head text)) n.tag ≠ none) {t : Leaf α}
    (ht : t ∈ n.leaves) (hu : u t.tag = none) :
    resultFilling (l.fill u) d head text t.tag = none := by
  have hnd' : (l.fill u).tags.Nodup := (tags_fill_sublist u l).nodup hnd
  by_cases hun : u n.tag = none
  · -- The token is filled with this result, and then none in its body is.
    rw [Filling.then, hun, Option.none_or] at hfilled
    refine resultFilling_leaf hnd' (n := n.fill u) ?_ hfilled ?_
    · rw [nodes_fill]
      exact List.mem_map_of_mem (List.mem_filter.2 ⟨hn, by simp [hun]⟩)
    · rw [leaves_fill]
      exact List.mem_filter.2 ⟨ht, by simp [hu]⟩
  · -- It was filled before, and took those in its body with it.
    by_contra hne
    obtain ⟨text', hv⟩ := Option.ne_none_iff_exists'.1 hne
    obtain ⟨-, h', hh', htag, -⟩ := exists_alike_of_resultFilling hv
    rw [Layout.heads, nodes_fill] at hh'
    obtain ⟨n₁', hn₁', hh'⟩ := List.mem_flatMap.1 hh'
    obtain ⟨n₁, hn₁, rfl⟩ := List.mem_map.1 hn₁'
    obtain ⟨hn₁, hun₁⟩ := List.mem_filter.1 hn₁
    obtain ⟨h₁, hh₁, htag₁⟩ : ∃ h₁ ∈ n₁.heads, h₁.tag = h'.tag := by
      rcases List.mem_cons.1 hh' with rfl | hh'
      · exact ⟨n₁.head, List.mem_cons_self, rfl⟩
      · rw [leaves_fill] at hh'
        obtain ⟨t', ht', rfl⟩ := List.mem_map.1 hh'
        exact ⟨t'.head, List.mem_cons_of_mem _ (List.mem_map_of_mem (List.mem_filter.1 ht').1), rfl⟩
    obtain rfl := node_eq_of_tag hnd hn hn₁ (List.mem_cons_of_mem _ (List.mem_map_of_mem ht)) hh₁
      (htag.symm.trans htag₁.symm)
    exact hun (Option.isNone_iff_eq_none.1 hun₁)

/-- A token is written from then on as it was when it was filled. -/
theorem mem_written_of_filled {h : Head α}
    (hh : h ∈ written (u.then (resultFilling (l.fill u) d head text)) l)
    (hfilled : (u.then (resultFilling (l.fill u) d head text)) h.tag ≠ none) : h ∈ written u l := by
  obtain ⟨n, hn, hh⟩ := List.mem_flatMap.1 hh
  refine List.mem_flatMap.2 ⟨n, hn, ?_⟩
  rcases List.mem_cons.1 hh with rfl | hh
  · rw [← node_fill_fill, node_fill_of_none (n := n.fill u)]
    · exact List.mem_cons_self
    · intro t ht
      rw [leaves_fill] at ht
      obtain ⟨ht, hu⟩ := List.mem_filter.1 ht
      exact resultFilling_leaf_of_filled hnd hn hfilled ht (Option.isNone_iff_eq_none.1 hu)
  · exact List.mem_cons_of_mem _ hh

end Nodup

/-! ## §2 Origins -/

/-- Where the text comes from that takes the place of a token. -/
inductive Origin where
  /-- The seed has it. -/
  | seed
  /-- The evaluation with this number has given it. -/
  | evaluation (i : Nat)
  deriving DecidableEq

/-- Whether an evaluation was made for a token that is written like a head, and put in this text. -/
def Gives (e : Evaluation σ) (h : Head α) (text : String) : Prop :=
  e.directive.name = h.opening.name ∧ (∃ pos, e.token = h.token pos) ∧ e.outcome.text = text

/-- Whether the texts that fill a layout come from where they are said to: from the seed, or from one of
some evaluations. -/
structure Attributed (order : List (Directive σ)) (seed : Context) (es : List (Evaluation σ))
    (l : Layout α) (u : Filling α) (origin : α → Option Origin) : Prop where
  /-- What is filled has an origin. -/
  filled : ∀ h ∈ l.heads, (origin h.tag).isSome = (u h.tag).isSome
  /-- The seed comes first. -/
  seeded : ∀ h ∈ l.heads, ∀ s, seedText? order seed h.opening.name = some s ↔
    origin h.tag = some .seed ∧ u.textAt h.tag = s
  /-- An evaluation was made for a token as it was written then. -/
  evaluated : ∀ h ∈ written u l, ∀ i, origin h.tag = some (.evaluation i) →
    ∃ e, es[i]? = some e ∧ Gives e h (u.textAt h.tag)
  /-- What was evaluated in a body was evaluated earlier. -/
  earlier : ∀ n ∈ l.nodes, ∀ t ∈ n.leaves, ∀ i j, origin n.tag = some (.evaluation i) →
    origin t.tag = some (.evaluation j) → j < i
  /-- Only those of constant directives are shared. -/
  apart : ∀ h ∈ l.heads, ∀ h' ∈ l.heads, h ≠ h' → ∀ i e, origin h.tag = some (.evaluation i) →
    origin h'.tag = some (.evaluation i) → es[i]? = some e → e.directive.constant = true
  /-- Each was made for the token that closes first of those of its name that were left. -/
  first : ∀ i < es.length, ∃ h ∈ l.heads, origin h.tag = some (.evaluation i) ∧
    ∀ h' ∈ l.heads, h'.opening.name = h.opening.name →
      (h'.tag ∈ (l.fill u).tags ∨ ∃ j > i, origin h'.tag = some (.evaluation j)) →
      [h.tag, h'.tag].Sublist (l.closing.map Head.tag)

section Attributed

variable {order : List (Directive σ)} {seed : Context} {es : List (Evaluation σ)} {l : Layout α}
  {u : Filling α} {origin : α → Option Origin}

theorem Attributed.lt_length (h : Attributed order seed es l u origin) {head : Head α}
    (hh : head ∈ l.heads) {i : Nat} (hi : origin head.tag = some (.evaluation i)) : i < es.length := by
  obtain ⟨h', hh', htag, -⟩ := exists_written (u := u) hh
  obtain ⟨e, he, -⟩ := h.evaluated h' hh' i (htag ▸ hi)
  exact (List.getElem?_eq_some_iff.1 he).1

/-- The seeded values come from the seed. -/
theorem attributed_seedFilling [DecidableEq α] (hnd : l.tags.Nodup)
    (hseed : ∀ h ∈ l.heads, ∀ s, seedText? order seed h.opening.name = some s → BraceFree s.toList) :
    Attributed order seed [] l (seedFilling l order seed)
      fun a => (seedFilling l order seed a).map fun _ => .seed := by
  have hno {a : α} {i : Nat} :
      (seedFilling l order seed a).map (fun _ => Origin.seed) ≠ some (.evaluation i) := by
    cases seedFilling l order seed a <;> simp
  refine ⟨fun h _ => Option.isSome_map .., fun h hh s => ?_, fun _ _ _ hi => absurd hi hno,
    fun _ _ _ _ _ _ hi => absurd hi hno, fun _ _ _ _ _ _ _ hi => absurd hi hno,
    fun _ hi => absurd hi (Nat.not_lt_zero _)⟩
  have hv : seedFilling l order seed h.tag =
      (seedText? order seed h.opening.name).bind plainText? := fillingBy_tag hnd _ hh
  cases hs : seedText? order seed h.opening.name with
  | none =>
    rw [hs, Option.bind_none] at hv
    simp [hv]
  | some s₀ =>
    rw [hs, Option.bind_some, plainText?_of_braceFree (hseed h hh s₀ hs)] at hv
    simp [hv, Filling.textAt_of_some hv]

end Attributed

/-! ## §3 One evaluation -/

section Step

variable [DecidableEq α] {order : List (Directive σ)} {seed : Context} {l : Layout α}
  (hnd : l.tags.Nodup) {r : Rendering σ} {u : Filling α} {origin : α → Option Origin}
  (h : Attributed order seed r.evaluations l u origin) {d : Directive σ} {head : Head α} {pos : Nat}
  (hfirst : (l.fill u).firstNamed d.name = some head) {text : PlainText}

/-- The origins after an evaluation for a head: what it fills comes from it. -/
def originAfter (l : Layout α) (u : Filling α) (origin : α → Option Origin) (k : Nat)
    (d : Directive σ) (head : Head α) (text : PlainText) : α → Option Origin := fun a =>
  (origin a).or ((resultFilling (l.fill u) d head text a).map fun _ => .evaluation k)

include h

theorem Attributed.of_filled {h₀ : Head α} (hh₀ : h₀ ∈ l.heads) (hu : u h₀.tag ≠ none) (k : Nat) :
    originAfter l u origin k d head text h₀.tag = origin h₀.tag ∧
      u.then (resultFilling (l.fill u) d head text) h₀.tag = u h₀.tag := by
  obtain ⟨text₀, hu⟩ := Option.ne_none_iff_exists'.1 hu
  have hsome := h.filled h₀ hh₀
  rw [hu, Option.isSome_some, Option.isSome_iff_exists] at hsome
  obtain ⟨o, ho⟩ := hsome
  simp [originAfter, ho, Filling.then, hu]

theorem Attributed.of_left {h₀ : Head α} (hh₀ : h₀ ∈ l.heads) (hu : u h₀.tag = none) (k : Nat) :
    origin h₀.tag = none ∧
      originAfter l u origin k d head text h₀.tag =
        (resultFilling (l.fill u) d head text h₀.tag).map (fun _ => .evaluation k) ∧
      u.then (resultFilling (l.fill u) d head text) h₀.tag =
        resultFilling (l.fill u) d head text h₀.tag := by
  have hnone := h.filled h₀ hh₀
  rw [hu, Option.isSome_none, Option.isSome_eq_false_iff, Option.isNone_iff_eq_none] at hnone
  simp [originAfter, hnone, Filling.then, hu]

/-- What comes from an evaluation was filled before, by an earlier one, or is filled with the result of
this one, as a head alike. -/
theorem Attributed.evaluation_cases {h₀ : Head α} (hh₀ : h₀ ∈ l.heads) {i : Nat}
    (hi : originAfter l u origin r.evaluations.length d head text h₀.tag = some (.evaluation i)) :
    (u h₀.tag ≠ none ∧ origin h₀.tag = some (.evaluation i) ∧ i < r.evaluations.length) ∨
      (u h₀.tag = none ∧ i = r.evaluations.length ∧
        resultFilling (l.fill u) d head text h₀.tag = some text ∧
        ∃ h' ∈ (l.fill u).heads, h'.tag = h₀.tag ∧ alike d head h' = true) := by
  by_cases hu : u h₀.tag = none
  · rw [(h.of_left hh₀ hu _).2.1] at hi
    obtain ⟨text', hv, heq⟩ := Option.map_eq_some_iff.1 hi
    obtain ⟨rfl, halike⟩ := exists_alike_of_resultFilling hv
    exact .inr ⟨hu, (Origin.evaluation.inj heq).symm, hv, halike⟩
  · rw [(h.of_filled hh₀ hu _).1] at hi
    exact .inl ⟨hu, hi, h.lt_length hh₀ hi⟩

/-- What has an origin afterwards is filled. -/
theorem Attributed.isSome_after {h₀ : Head α} (hh₀ : h₀ ∈ l.heads) (k : Nat) :
    (originAfter l u origin k d head text h₀.tag).isSome =
      (u.then (resultFilling (l.fill u) d head text) h₀.tag).isSome := by
  by_cases hu : u h₀.tag = none
  · obtain ⟨-, horigin, hthen⟩ := h.of_left hh₀ hu k
    rw [horigin, hthen, Option.isSome_map]
  · rw [(h.of_filled hh₀ hu k).1, (h.of_filled hh₀ hu k).2, h.filled h₀ hh₀]

theorem Attributed.filled_of_evaluation {h₀ : Head α} (hh₀ : h₀ ∈ l.heads) {k i : Nat}
    (hi : originAfter l u origin k d head text h₀.tag = some (.evaluation i)) :
    u.then (resultFilling (l.fill u) d head text) h₀.tag ≠ none := by
  rw [← Option.isSome_iff_ne_none, ← h.isSome_after hh₀ k, hi, Option.isSome_some]

/-- What the seed has was put in at first. -/
theorem Attributed.seeded_step {h₀ : Head α} (hh₀ : h₀ ∈ l.heads) (k : Nat) (s : String) :
    seedText? order seed h₀.opening.name = some s ↔
      originAfter l u origin k d head text h₀.tag = some .seed ∧
        (u.then (resultFilling (l.fill u) d head text)).textAt h₀.tag = s := by
  rw [h.seeded h₀ hh₀ s, Filling.textAt, Filling.textAt]
  by_cases hu : u h₀.tag = none
  · obtain ⟨hnone, horigin, -⟩ := h.of_left hh₀ hu k
    rw [horigin, hnone]
    cases resultFilling (l.fill u) d head text h₀.tag <;> simp
  · rw [(h.of_filled hh₀ hu k).1, (h.of_filled hh₀ hu k).2]

include hnd

theorem Attributed.earlier_step {n : Node α} (hn : n ∈ l.nodes) {t : Leaf α} (ht : t ∈ n.leaves)
    {i j : Nat}
    (hi : originAfter l u origin r.evaluations.length d head text n.tag = some (.evaluation i))
    (hj : originAfter l u origin r.evaluations.length d head text t.tag = some (.evaluation j)) :
    j < i := by
  rcases h.evaluation_cases (leaf_mem_heads hn ht) hj with ⟨-, hj, hlt⟩ | ⟨hut, -, hv, -⟩
  · rcases h.evaluation_cases (head_mem_heads hn) hi with ⟨-, hi, -⟩ | ⟨-, rfl, -⟩
    · exact h.earlier n hn t ht i j hi hj
    · exact hlt
  · -- A token in a body is not filled once the token around it is.
    have hfilled := h.filled_of_evaluation (head_mem_heads hn) hi
    have hnone := resultFilling_leaf_of_filled hnd hn hfilled ht hut
    rw [Leaf.head_tag, hnone] at hv
    exact absurd hv (by simp)

theorem Attributed.apart_step {h₁ h₂ : Head α} (hh₁ : h₁ ∈ l.heads) (hh₂ : h₂ ∈ l.heads)
    (hne : h₁ ≠ h₂) {i : Nat} {e : Evaluation σ}
    (hi₁ : originAfter l u origin r.evaluations.length d head text h₁.tag = some (.evaluation i))
    (hi₂ : originAfter l u origin r.evaluations.length d head text h₂.tag = some (.evaluation i))
    (he : (r.step d (head.token pos)).evaluations[i]? = some e) : e.directive.constant = true := by
  rw [evaluations_step] at he
  rcases h.evaluation_cases hh₁ hi₁ with ⟨-, hi₁, hlt⟩ | ⟨-, rfl, -, h₁', hh₁', htag₁, halike₁⟩
  · rcases h.evaluation_cases hh₂ hi₂ with ⟨-, hi₂, -⟩ | ⟨-, rfl, -⟩
    · rw [List.getElem?_append_left hlt] at he
      exact h.apart h₁ hh₁ h₂ hh₂ hne i e hi₁ hi₂ he
    · exact absurd hlt (Nat.lt_irrefl _)
  · rcases h.evaluation_cases hh₂ hi₂ with ⟨-, -, hlt⟩ | ⟨-, -, -, h₂', hh₂', htag₂, halike₂⟩
    · exact absurd hlt (Nat.lt_irrefl _)
    · obtain rfl : ⟨d, head.token pos, r.context, r.state⟩ = e := by simpa using he
      -- If the directive is not constant, both have the tag of the head that was evaluated.
      by_contra hconstant
      rw [Bool.not_eq_true] at hconstant
      rw [alike_of_not_constant hconstant] at halike₁ halike₂
      exact hne (eq_of_tag_eq hnd hh₁ hh₂ (by rw [← htag₁, ← htag₂, halike₁, halike₂]))

include hfirst

theorem Attributed.evaluated_step
    (htext : (⟨d, head.token pos, r.context, r.state⟩ : Evaluation σ).outcome.text = .ofList text.1)
    {h₀ : Head α} (hh₀ : h₀ ∈ written (u.then (resultFilling (l.fill u) d head text)) l) {i : Nat}
    (hi : originAfter l u origin r.evaluations.length d head text h₀.tag = some (.evaluation i)) :
    ∃ e, (r.step d (head.token pos)).evaluations[i]? = some e ∧
      Gives e h₀ ((u.then (resultFilling (l.fill u) d head text)).textAt h₀.tag) := by
  obtain ⟨h₁, hh₁, htag, -⟩ := exists_of_mem_written hh₀
  rw [← htag] at hi
  have hwritten := mem_written_of_filled hnd hh₀ (htag ▸ h.filled_of_evaluation hh₁ hi)
  rw [evaluations_step]
  rcases h.evaluation_cases hh₁ hi with ⟨hu, hi, hlt⟩ | ⟨hu, rfl, hv, h', hh', htag', halike⟩
  · obtain ⟨e, he, hgives⟩ := h.evaluated h₀ hwritten i (htag ▸ hi)
    refine ⟨e, by rw [List.getElem?_append_left hlt, he], ?_⟩
    rw [← htag, Filling.textAt, (h.of_filled hh₁ hu 0).2, htag]
    exact hgives
  · -- The head was filled now, so it is written like the one that was evaluated.
    obtain ⟨hmem, hname⟩ := mem_of_firstNamed hfirst
    obtain rfl := eq_of_mem_written hnd (mem_written_of_mem_heads_fill hh') hwritten
      (htag'.trans htag)
    obtain ⟨hname', hchars⟩ := chars_eq_of_alike ((tags_fill_sublist u l).nodup hnd) hmem hh' hname
      halike
    refine ⟨⟨d, head.token pos, r.context, r.state⟩, by simp, hname'.symm,
      ⟨pos, token_of_chars_eq hchars.symm pos⟩, ?_⟩
    rw [← htag, Filling.textAt_of_some ((h.of_left hh₁ hu 0).2.2.trans hv)]
    exact htext

theorem Attributed.first_step {i : Nat} (hi : i < (r.step d (head.token pos)).evaluations.length) :
    ∃ h₁ ∈ l.heads,
      originAfter l u origin r.evaluations.length d head text h₁.tag = some (.evaluation i) ∧
      ∀ h₂ ∈ l.heads, h₂.opening.name = h₁.opening.name →
        (h₂.tag ∈ (l.fill (u.then (resultFilling (l.fill u) d head text))).tags ∨ ∃ j > i,
          originAfter l u origin r.evaluations.length d head text h₂.tag = some (.evaluation j)) →
        [h₁.tag, h₂.tag].Sublist (l.closing.map Head.tag) := by
  obtain ⟨hmem, hname⟩ := mem_of_firstNamed hfirst
  have hnd' : (l.fill u).tags.Nodup := (tags_fill_sublist u l).nodup hnd
  have hfewer {a : α} (ha : a ∈ (l.fill (u.then (resultFilling (l.fill u) d head text))).tags) :
      a ∈ (l.fill u).tags := by
    rw [← fill_fill] at ha
    exact (tags_fill_sublist _ _).mem ha
  rw [evaluations_step, List.length_append, List.length_singleton] at hi
  rcases Nat.lt_succ_iff_lt_or_eq.1 hi with hi | rfl
  · obtain ⟨h₁, hh₁, hi₁, hclosing⟩ := h.first i hi
    refine ⟨h₁, hh₁, by simp [originAfter, hi₁], fun h₂ hh₂ hname₂ hlater => ?_⟩
    refine hclosing h₂ hh₂ hname₂ ?_
    rcases hlater with hleft | ⟨j, hj, hj₂⟩
    · exact .inl (hfewer hleft)
    · rcases h.evaluation_cases hh₂ hj₂ with ⟨-, hj₂, -⟩ | ⟨-, -, -, h', hh', htag, -⟩
      · exact .inr ⟨j, hj, hj₂⟩
      · exact .inl (htag ▸ List.mem_map_of_mem hh')
  · obtain ⟨-, h₁, hh₁, htag, hopening⟩ := mem_heads_fill hmem
    have hv := (resultFilling_spec hnd' hmem hname text).1
    have hu := (mem_heads_fill hmem).1
    refine ⟨h₁, hh₁, ?_, fun h₂ hh₂ hname₂ hlater => ?_⟩
    · rw [(h.of_left hh₁ (htag ▸ hu) _).2.1, htag, hv, Option.map_some]
    · rcases hlater with hleft | ⟨j, hj, hj₂⟩
      · -- It is left, so it closes after the head that was found.
        obtain ⟨h₂', hh₂', htag₂⟩ := List.mem_map.1 (hfewer hleft)
        obtain ⟨-, h₃, hh₃, htag₃, hopening₃⟩ := mem_heads_fill hh₂'
        obtain rfl := eq_of_tag_eq hnd hh₃ hh₂ (htag₃.trans htag₂)
        have hne : h₂' ≠ head := by
          rintro rfl
          rw [← fill_fill] at hleft
          obtain ⟨h₄, hh₄, htag₄⟩ := List.mem_map.1 hleft
          have hnone := (mem_heads_fill hh₄).1
          rw [htag₄, ← htag₂, hv] at hnone
          exact absurd hnone (by simp)
        have hsublist := (sublist_of_firstNamed hfirst hh₂'
          (by rw [← hopening₃, hname₂, hopening, hname]) hne).map Head.tag
        rw [List.map_cons, List.map_singleton, htag₂] at hsublist
        rw [htag]
        exact hsublist.trans (closing_fill_sublist u l)
      · rcases h.evaluation_cases hh₂ hj₂ with ⟨-, -, hlt⟩ | ⟨-, rfl, -⟩
        · exact absurd (Nat.lt_trans hj hlt) (Nat.lt_irrefl _)
        · exact absurd hj (Nat.lt_irrefl _)

/-- After an evaluation the tokens that it fills come from it, and the others from where they did. -/
theorem Attributed.step
    (htext : (⟨d, head.token pos, r.context, r.state⟩ : Evaluation σ).outcome.text = .ofList text.1) :
    Attributed order seed (r.step d (head.token pos)).evaluations l
      (u.then (resultFilling (l.fill u) d head text))
      (originAfter l u origin r.evaluations.length d head text) where
  filled _ hh := h.isSome_after hh _
  seeded _ hh s := h.seeded_step hh _ s
  evaluated _ hh _ hi := h.evaluated_step hnd hfirst htext hh hi
  earlier _ hn _ ht _ _ hi hj := h.earlier_step hnd hn ht hi hj
  apart _ hh₁ _ hh₂ hne _ _ hi₁ hi₂ he := h.apart_step hnd hh₁ hh₂ hne hi₁ hi₂ he
  first _ hi := h.first_step hnd hfirst hi

end Step

/-! ## §4 The rendering -/

/-- A tracked rendering whose results hold no braces can tell where each text comes from. -/
theorem exists_attributed [DecidableEq α] {order : List (Directive σ)} {seed : Context} {l : Layout α}
    (hnd : l.tags.Nodup) {template : String} (hl : template.toList = l.write) {limit : Nat} {state : σ}
    (hseed : ∀ h ∈ l.heads, ∀ s, seedText? order seed h.opening.name = some s → BraceFree s.toList)
    (hfree : ∀ e ∈ (renderIn order limit template seed state).evaluations,
      BraceFree e.outcome.text.toList) :
    ∃ u origin, Tracks order seed l (renderIn order limit template seed state) u ∧
      Attributed order seed (renderIn order limit template seed state).evaluations l u origin := by
  obtain ⟨u, htracks, origin, horigin⟩ := tracks_induction hnd hl hseed (Q := fun r u =>
    ∃ origin, Attributed order seed r.evaluations l u origin)
    ⟨_, attributed_seedFilling hnd hseed⟩
    (fun d _ r u head pos text _ ⟨origin, h⟩ _ hfirst htext => ⟨_, h.step hnd hfirst htext⟩) hfree
  exact ⟨u, origin, htracks, horigin⟩

/-! ## §5 Accounts -/

/-- An account of the texts that take the places of tokens of a template, by the evaluations that were
made: where each comes from, and which it is. -/
structure Account (order : List (Directive σ)) (seed : Context) (template : String)
    (es : List (Evaluation σ)) where
  /-- Where the text comes from, if there is one. -/
  origin : Token → Option Origin
  /-- The text. -/
  value : Token → String
  /-- It is from the seed exactly if that has one for the token's name. -/
  seeded : ∀ t ∈ tokens template, ∀ s, seedText? order seed t.name = some s ↔
    origin t = some .seed ∧ value t = s
  /-- Else it is the result of its evaluation, made for a token of its name and arguments, and empty if
  that failed. -/
  evaluated : ∀ t ∈ tokens template, ∀ i, origin t = some (.evaluation i) →
    ∃ e, es[i]? = some e ∧ e.directive.name = t.name ∧ e.token.name = t.name ∧
      e.token.args = t.args ∧
      match e.answer with
      | .ok outcome => value t = outcome.text
      | .error _ => value t = ""
  /-- A token with a text for a body was evaluated as it stands in the template. -/
  plain : ∀ t ∈ tokens template, (∀ body, t.body = some body → BraceFree body.toList) →
    ∀ i e, origin t = some (.evaluation i) → es[i]? = some e → e.token = { t with span := e.token.span }
  /-- Any other was evaluated with the texts in its body that had taken the places of tokens there. -/
  nested : ∀ outer inner, .token outer inner ∈ pieces template →
    ∀ i e, origin outer = some (.evaluation i) → es[i]? = some e →
      Patched outer.span.start outer.raw.toList
          ((inner.filter fun t => (origin t).isSome).map fun t => ⟨t.span, value t⟩)
          e.token.raw.toList ∧
        ∀ t ∈ inner, ∀ j, origin t = some (.evaluation j) → j < i
  /-- Two tokens share an evaluation only if its directive is constant. -/
  apart : ∀ t ∈ tokens template, ∀ t' ∈ tokens template, t ≠ t' → ∀ i e,
    origin t = some (.evaluation i) → origin t' = some (.evaluation i) → es[i]? = some e →
      e.directive.constant = true
  /-- Each evaluation gave a text to some token, and of one name the first to end came first. -/
  first : ∀ i < es.length, ∃ t ∈ tokens template, origin t = some (.evaluation i) ∧
    ∀ t' ∈ tokens template, t'.name = t.name → ∀ j > i, origin t' = some (.evaluation j) →
      t.span.stop < t'.span.stop

section Account

variable {order : List (Directive σ)} {seed : Context} {es : List (Evaluation σ)} {l : Layout α}
  {u : Filling α} {origin : α → Option Origin} {template : String} (hl : template.toList = l.write)
  {f : Span → α} (htags : ∀ m ∈ l.marks 0, m.1.tag = f (m.1.token m.2).span)

theorem exists_mark_of_mem_tokens {template : String} {l : Layout α} (hl : template.toList = l.write)
    {t : Token} (ht : t ∈ tokens template) : ∃ m ∈ l.marks 0, m.1 ∈ l.heads ∧ m.1.token m.2 = t := by
  rw [tokens_of_layout hl] at ht
  obtain ⟨m, hm, rfl⟩ := List.mem_map.1 ht
  exact ⟨m, hm, mem_heads_of_mem_marks hm, rfl⟩

/-- An evaluation puts in its result, or nothing if it failed. -/
theorem text_outcome_eq_iff {e : Evaluation σ} {text : String} : e.outcome.text = text ↔
    match e.answer with
    | .ok outcome => text = outcome.text
    | .error _ => text = "" := by
  rw [Evaluation.outcome, eq_comm]
  cases e.answer <;> rfl

include htags

/-- The edits in the body of a token are those of the tokens there that have an origin. -/
theorem Attributed.edits_nested (h : Attributed order seed es l u origin) {n : Node α} {p : Nat}
    (hn : (n, p) ∈ place Node.write 0 l) :
    editsAt u (n.nested p) = (((n.nested p).map fun m => m.1.token m.2).filter
      fun t => (origin (f t.span)).isSome).map fun t => ⟨t.span, u.textAt (f t.span)⟩ := by
  rw [List.filter_map, List.map_map, ← List.filterMap_eq_map', List.filterMap_filter, editsAt]
  refine List.filterMap_congr fun m hm => ?_
  have hmark : m ∈ l.marks 0 := List.mem_flatMap.2 ⟨(n, p), hn, List.mem_cons_of_mem _ hm⟩
  have hsome := h.filled m.1 (mem_heads_of_mem_marks hmark)
  change (u m.1.tag).map (m.1.edit m.2) = if (origin (f (m.1.token m.2).span)).isSome = true then
    some ⟨(m.1.token m.2).span, u.textAt (f (m.1.token m.2).span)⟩ else none
  rw [← htags m hmark, hsome]
  cases hu : u m.1.tag with
  | some text => simp [Head.edit, Filling.textAt_of_some hu]
  | none => simp

include hl

theorem Attributed.evaluated_token (h : Attributed order seed es l u origin) {t : Token}
    (ht : t ∈ tokens template) {i : Nat} (hi : origin (f t.span) = some (.evaluation i)) :
    ∃ e, es[i]? = some e ∧ e.directive.name = t.name ∧ e.token.name = t.name ∧
      e.token.args = t.args ∧
      match e.answer with
      | .ok outcome => u.textAt (f t.span) = outcome.text
      | .error _ => u.textAt (f t.span) = "" := by
  obtain ⟨m, hm, hhead, rfl⟩ := exists_mark_of_mem_tokens hl ht
  rw [← htags m hm] at hi ⊢
  obtain ⟨h', hh', htag, hopening⟩ := exists_written (u := u) hhead
  obtain ⟨e, he, hgives⟩ := h.evaluated h' hh' i (htag ▸ hi)
  refine ⟨e, he, ?_⟩
  obtain ⟨hname, ⟨pos, htoken⟩, htext⟩ := hgives
  rw [htag] at htext
  exact ⟨by rw [hname, hopening]; rfl, by rw [htoken, Head.token_name, hopening]; rfl,
    by rw [htoken, Head.token_args, hopening]; rfl, text_outcome_eq_iff.1 htext⟩

theorem Attributed.plain_token (h : Attributed order seed es l u origin) {t : Token}
    (ht : t ∈ tokens template) (hbody : ∀ body, t.body = some body → BraceFree body.toList) {i : Nat}
    {e : Evaluation σ} (hi : origin (f t.span) = some (.evaluation i)) (he : es[i]? = some e) :
    e.token = { t with span := e.token.span } := by
  obtain ⟨m, hm, hhead, rfl⟩ := exists_mark_of_mem_tokens hl ht
  rw [← htags m hm] at hi
  have hplain : m.1.IsPlain := fun body hbody' => by
    simpa using hbody (.ofList body) (by simp [Head.token, hbody'])
  obtain ⟨e', he', -, ⟨pos, htoken⟩, -⟩ :=
    h.evaluated m.1 (mem_written_of_isPlain hhead hplain) i hi
  obtain rfl := Option.some.inj (he.symm.trans he')
  rw [htoken]
  rfl

theorem Attributed.nested_token (h : Attributed order seed es l u origin) {outer : Token}
    {inner : List Token} (hpiece : .token outer inner ∈ pieces template) {i : Nat} {e : Evaluation σ}
    (hi : origin (f outer.span) = some (.evaluation i)) (he : es[i]? = some e) :
    Patched outer.span.start outer.raw.toList
        ((inner.filter fun t => (origin (f t.span)).isSome).map
          fun t => ⟨t.span, u.textAt (f t.span)⟩) e.token.raw.toList ∧
      ∀ t ∈ inner, ∀ j, origin (f t.span) = some (.evaluation j) → j < i := by
  obtain ⟨n, p, hn, hnode⟩ := (token_mem_pieces_iff hl).1 hpiece
  obtain ⟨rfl, rfl⟩ := Piece.token.inj hnode
  have hmarks : ∀ m ∈ (n.head, p) :: n.nested p, m ∈ l.marks 0 :=
    fun m hm => List.mem_flatMap.2 ⟨(n, p), hn, hm⟩
  have hnodes : n ∈ l.nodes := by
    rw [Layout.nodes, ← map_fst_place Node.write 0]
    exact List.mem_map_of_mem (f := Prod.fst) hn
  rw [← htags _ (hmarks _ List.mem_cons_self)] at hi
  refine ⟨?_, fun t ht j hj => ?_⟩
  · obtain ⟨e', he', -, ⟨pos, htoken⟩, -⟩ :=
      h.evaluated (n.fill u).head (List.mem_flatMap.2 ⟨n, hnodes, List.mem_cons_self⟩) i hi
    obtain rfl := Option.some.inj (he.symm.trans he')
    have hpatched := patched_node_fill u n p
    rw [h.edits_nested htags hn] at hpatched
    rw [htoken]
    change Patched p (String.ofList n.head.chars).toList _ (String.ofList (n.fill u).head.chars).toList
    rw [String.toList_ofList, String.toList_ofList]
    exact hpatched
  · obtain ⟨m, hm, rfl⟩ := List.mem_map.1 ht
    have hleaf : m.1 ∈ n.leaves.map Leaf.head := by
      rw [← map_fst_nested n p]
      exact List.mem_map_of_mem hm
    obtain ⟨t, ht, hhead⟩ := List.mem_map.1 hleaf
    rw [← htags m (hmarks m (List.mem_cons_of_mem _ hm)), ← hhead] at hj
    exact h.earlier n hnodes t ht i j hi hj

theorem Attributed.apart_token (h : Attributed order seed es l u origin)
    (hf : Function.Injective f) {t t' : Token} (ht : t ∈ tokens template) (ht' : t' ∈ tokens template)
    (hne : t ≠ t') {i : Nat} {e : Evaluation σ} (hi : origin (f t.span) = some (.evaluation i))
    (hi' : origin (f t'.span) = some (.evaluation i)) (he : es[i]? = some e) :
    e.directive.constant = true := by
  obtain ⟨m, hm, hhead, rfl⟩ := exists_mark_of_mem_tokens hl ht
  obtain ⟨m', hm', hhead', rfl⟩ := exists_mark_of_mem_tokens hl ht'
  have hheads : m.1 ≠ m'.1 := by
    intro heq
    -- One head stands in one place.
    have hspan := htags m hm
    rw [heq, htags m' hm'] at hspan
    have hstart : m'.2 = m.2 := congrArg Span.start (hf hspan)
    exact hne (by rw [heq, hstart])
  rw [← htags m hm] at hi
  rw [← htags m' hm'] at hi'
  exact h.apart m.1 hhead m'.1 hhead' hheads i e hi hi' he

theorem Attributed.first_token (h : Attributed order seed es l u origin)
    (hf : Function.Injective f) {i : Nat} (hi : i < es.length) :
    ∃ t ∈ tokens template, origin (f t.span) = some (.evaluation i) ∧
      ∀ t' ∈ tokens template, t'.name = t.name →
        ∀ j > i, origin (f t'.span) = some (.evaluation j) → t.span.stop < t'.span.stop := by
  obtain ⟨head, hhead, horigin, hclosing⟩ := h.first i hi
  rw [← map_fst_marks l 0] at hhead
  obtain ⟨m, hm, rfl⟩ := List.mem_map.1 hhead
  refine ⟨m.1.token m.2, ?_, by rwa [← htags m hm], fun t' ht' hname j hj hj' => ?_⟩
  · rw [tokens_of_layout hl]
    exact List.mem_map_of_mem (f := fun m : Head α × Nat => m.1.token m.2) hm
  · obtain ⟨m', hm', hhead', rfl⟩ := exists_mark_of_mem_tokens hl ht'
    rw [← htags m' hm'] at hj'
    exact stop_lt_of_sublist (nodup_tags_of_injective hf htags) hm hm'
      (hclosing m'.1 hhead' hname (.inr ⟨j, hj, hj'⟩))

/-- The account that a filling gives whose texts can be attributed. -/
def Attributed.account (h : Attributed order seed es l u origin) (hf : Function.Injective f) :
    Account order seed template es where
  origin t := origin (f t.span)
  value t := u.textAt (f t.span)
  seeded t ht s := by
    obtain ⟨m, hm, hhead, rfl⟩ := exists_mark_of_mem_tokens hl ht
    rw [← htags m hm]
    exact h.seeded m.1 hhead s
  evaluated _ ht _ hi := h.evaluated_token hl htags ht hi
  plain _ ht hbody _ _ hi he := h.plain_token hl htags ht hbody hi he
  nested _ _ hpiece _ _ hi he := h.nested_token hl htags hpiece hi he
  apart _ ht _ ht' hne _ _ hi hi' he := h.apart_token hl htags hf ht ht' hne hi hi' he
  first _ hi := h.first_token hl htags hf hi

end Account

end Stencil.Engine
