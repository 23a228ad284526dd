import Mathlib.Data.List.Nodup
import Stencil.Proofs.Template.Filling

/-!
# The Order of Closing Braces

The token that a name refers to first is the one that ends first, so tokens of one name are taken in
the order of their closing braces.  Filling a layout keeps the order of what is left.

Main statements: `sublist_of_firstNamed` and `stop_lt_of_sublist`.
-/

namespace Stencil.Template

open Stencil.Text

variable {α : Type}

/-- The heads of the tokens in the body of a token, and then its own. -/
def Node.closing (n : Node α) : List (Head α) := n.leaves.map Leaf.head ++ [n.head]

/-- The heads of a layout, in the order of their closing braces. -/
def Layout.closing (l : Layout α) : List (Head α) := l.nodes.flatMap Node.closing

theorem mem_closing {l : Layout α} {h : Head α} : h ∈ l.closing ↔ h ∈ l.heads := by
  rw [Layout.closing, Layout.heads, List.mem_flatMap, List.mem_flatMap]
  refine exists_congr fun n => and_congr_right fun _ => ?_
  rw [Node.closing, Node.heads, List.mem_append, List.mem_singleton, List.mem_cons, or_comm]

theorem closing_fill_sublist (v : Filling α) (l : Layout α) :
    ((l.fill v).closing.map Head.tag).Sublist (l.closing.map Head.tag) := by
  have hnode (n : Node α) :
      ((n.fill v).closing.map Head.tag).Sublist (n.closing.map Head.tag) := by
    rw [Node.closing, Node.closing, leaves_fill, List.map_append, List.map_append]
    exact ((List.filter_sublist.map _).map _).append (.refl _)
  rw [Layout.closing, Layout.closing, nodes_fill]
  induction l.nodes with
  | nil => simp
  | cons n nodes ih =>
    rw [List.filter_cons, List.flatMap_cons, List.map_append]
    split
    · rw [List.map_cons, List.flatMap_cons, List.map_append]
      exact (hnode n).append ih
    · exact ih.trans (List.sublist_append_right _ _)

theorem firstNamed_eq_find?_closing (name : String) (l : Layout α) :
    l.firstNamed name = l.closing.find? (·.opening.name == name) := by
  have hnode (n : Node α) : n.firstNamed name = n.closing.find? (·.opening.name == name) := by
    rw [Node.firstNamed, Node.closing, List.find?_append, List.find?_map]
    cases hleaf : n.leaves.find? (·.opening.name == name) with
    | some leaf => simp [Function.comp_def, hleaf]
    | none => simp [Function.comp_def, hleaf, List.find?_singleton]
  rw [Layout.firstNamed, Layout.closing, List.find?_flatMap]
  exact congrArg (l.nodes.findSome? ·) (funext hnode)

/-- The head that a name refers to first closes before any other of the name. -/
theorem sublist_of_firstNamed {name : String} {l : Layout α} {h h' : Head α}
    (hfirst : l.firstNamed name = some h) (hh' : h' ∈ l.heads) (hname : h'.opening.name = name)
    (hne : h' ≠ h) : [h, h'].Sublist l.closing := by
  rw [firstNamed_eq_find?_closing, List.find?_eq_some_iff_append] at hfirst
  obtain ⟨-, before, after, hsplit, hbefore⟩ := hfirst
  have hmem := mem_closing.2 hh'
  rw [hsplit] at hmem ⊢
  rcases List.mem_append.1 hmem with hmem | hmem
  · exact absurd (hbefore h' hmem) (by simp [hname])
  · have hafter := (List.mem_cons.1 hmem).resolve_left hne
    exact ((List.singleton_sublist.2 hafter).cons_cons h).trans (List.sublist_append_right _ _)

/-! ## Where tokens end -/

/-- Where a head ends that stands at a position. -/
def stop (m : Head α × Nat) : Nat := m.2 + byteLength m.1.chars

/-- The heads of a layout in the order of their closing braces, each with where it stands. -/
def Layout.closingMarks (l : Layout α) (pos : Nat) : List (Head α × Nat) :=
  (place Node.write pos l).flatMap fun (n, p) => n.nested p ++ [(n.head, p)]

theorem map_fst_closingMarks (l : Layout α) (pos : Nat) :
    (l.closingMarks pos).map Prod.fst = l.closing := by
  rw [Layout.closing, Layout.nodes, ← map_fst_place Node.write pos, Layout.closingMarks,
    List.map_flatMap, List.flatMap_map]
  refine List.flatMap_congr fun m _ => ?_
  rw [List.map_append, map_fst_nested]
  rfl

theorem mem_closingMarks {l : Layout α} {pos : Nat} {m : Head α × Nat} :
    m ∈ l.closingMarks pos ↔ m ∈ l.marks pos := by
  rw [Layout.closingMarks, Layout.marks, List.mem_flatMap, List.mem_flatMap]
  refine exists_congr fun n => and_congr_right fun _ => ?_
  rw [List.mem_append, List.mem_singleton, List.mem_cons, or_comm]

theorem stop_lt_of_mem_nested {n : Node α} {pos : Nat} {m : Head α × Nat} (hm : m ∈ n.nested pos) :
    stop m < stop (n.head, pos) := by
  obtain ⟨tag, o, interior⟩ := n
  cases interior with
  | closed => exact absurd hm List.not_mem_nil
  | plain body => exact absurd hm List.not_mem_nil
  | cells body =>
    obtain ⟨⟨t, p⟩, ht, rfl⟩ := List.mem_map.1 hm
    have hle := (bounds_of_mem_place ht).2
    -- Behind the body there are the closing braces.
    have hwrite : (Node.head ⟨tag, o, .cells body⟩).chars =
        ('{' :: '{' :: (o.chars ++ [':'])) ++ (writeCells Leaf.write body ++ ['}', '}']) := by
      simp [Node.head, Interior.chars?, Head.chars, Opening.write]
    have hclose : 0 < byteLength ['}', '}'] := by decide
    rw [Opening.inside] at hle
    rw [stop, stop, hwrite, byteLength_append, byteLength_append]
    change p + byteLength t.write < _
    dsimp only at hle ⊢
    omega

theorem pairwise_closingMarks (l : Layout α) (pos : Nat) :
    (l.closingMarks pos).Pairwise fun m m' => stop m < stop m' := by
  have hlast : ∀ n p, ∀ m ∈ n.nested p ++ [((n : Node α).head, p)],
      p ≤ m.2 ∧ stop m ≤ p + byteLength n.write := by
    intro n p m hm
    rcases List.mem_append.1 hm with hm | hm
    · exact ⟨Nat.le_of_lt (bounds_of_mem_nested hm).1, Nat.le_of_lt (stop_lt_of_mem_nested hm)⟩
    · rw [List.mem_singleton.1 hm]
      exact ⟨Nat.le_refl _, Nat.le_refl _⟩
  rw [Layout.closingMarks, List.pairwise_flatMap]
  constructor
  · rintro ⟨n, p⟩ -
    refine List.pairwise_append.2 ⟨?_, List.pairwise_singleton _ _, fun m hm m' hm' => ?_⟩
    · obtain ⟨tag, o, interior⟩ := n
      cases interior with
      | closed => exact .nil
      | plain body => exact .nil
      | cells body =>
        refine List.pairwise_map.2 ((pairwise_place Leaf.write (o.inside p) body).imp ?_)
        rintro ⟨t, q⟩ ⟨t', q'⟩ hle
        exact Nat.lt_of_le_of_lt hle (Nat.lt_add_of_pos_right (byteLength_pos t'.head.chars_ne_nil))
    · rw [List.mem_singleton.1 hm']
      exact stop_lt_of_mem_nested hm
  · refine (pairwise_place Node.write pos l).imp ?_
    rintro ⟨n, p⟩ ⟨n', p'⟩ hle m hm m' hm'
    have hfirst := (hlast n p m hm).2
    have hsecond := (hlast n' p' m' hm').1
    have hpos : m'.2 < stop m' := Nat.lt_add_of_pos_right (byteLength_pos m'.1.chars_ne_nil)
    dsimp only at hle
    omega

/-- Of two tags in the order of the closing braces, the token of the first ends before that of the
second. -/
theorem stop_lt_of_sublist {l : Layout α} (hnd : l.tags.Nodup) {pos : Nat} {m m' : Head α × Nat}
    (hm : m ∈ l.marks pos) (hm' : m' ∈ l.marks pos)
    (h : [m.1.tag, m'.1.tag].Sublist (l.closing.map Head.tag)) : stop m < stop m' := by
  rw [← map_fst_closingMarks l pos, List.map_map] at h
  obtain ⟨sub, hsub, heq⟩ := List.sublist_map_iff.1 h
  obtain ⟨a, b, rfl⟩ := List.length_eq_two.1 (by simpa using (congrArg List.length heq).symm)
  obtain ⟨hatag, hbtag⟩ : m.1.tag = a.1.tag ∧ m'.1.tag = b.1.tag := by simpa using heq
  -- Tags tell marks apart, so these are the two.
  have hkeys : ((l.marks pos).map fun m => m.1.tag).Nodup := by
    rwa [Layout.tags, ← map_fst_marks l pos, List.map_map] at hnd
  have hsame {c c' : Head α × Nat} (hc : c ∈ l.closingMarks pos) (hc' : c' ∈ l.marks pos)
      (htag : c.1.tag = c'.1.tag) : c = c' :=
    List.inj_on_of_nodup_map hkeys (mem_closingMarks.1 hc) hc' htag
  obtain rfl := hsame (hsub.mem List.mem_cons_self) hm hatag.symm
  obtain rfl := hsame (hsub.mem (by simp)) hm' hbtag.symm
  have hpair := (pairwise_closingMarks l pos).sublist hsub
  simpa using hpair

end Stencil.Template
