import Stencil.Proofs.Template.Filling
import Stencil.Proofs.Template.Recognition

/-!
# Tokens of Some Names

A class of names is clear of nesting in a layout if no token with a name of the class has tokens in
its body, and kept apart if none has tokens with a name of the class there.  Then filling some of these
tokens takes just them away, and the one that a name refers to first is the first in the order of the
text.  What the other tokens of the layout are does not matter.

A token whose body is text has no tokens in it, so it is as it was as long as it is not filled.

Main statements: `named_fill`, `firstNamed_eq_find?_named` and `eq_of_mem_heads_fill`.
-/

namespace Stencil.Template

open Stencil.Text

variable {α : Type} {names : String → Bool}

/-! ## §1 The tokens of some names -/

/-- The heads of some names, in the order of their opening braces. -/
def Layout.named (names : String → Bool) (l : Layout α) : List (Head α) :=
  l.heads.filter fun h => names h.opening.name

/-- Whether no token of some names has tokens in its body. -/
def Layout.Clear (names : String → Bool) (l : Layout α) : Prop :=
  ∀ n ∈ l.nodes, names n.opening.name = true → n.leaves = []

/-- Whether no token of some names has tokens of these names in its body. -/
def Layout.Apart (names : String → Bool) (l : Layout α) : Prop :=
  ∀ n ∈ l.nodes, names n.opening.name = true → ∀ t ∈ n.leaves, names t.opening.name = false

theorem Layout.Clear.apart {l : Layout α} (h : l.Clear names) : l.Apart names := by
  intro n hn hname t ht
  rw [h n hn hname] at ht
  exact absurd ht List.not_mem_nil

/-- Whether a filling fills only tokens of some names. -/
def Filling.Only (u : Filling α) (names : String → Bool) (l : Layout α) : Prop :=
  ∀ h ∈ l.heads, u h.tag ≠ none → names h.opening.name = true

theorem mem_named {l : Layout α} {h : Head α} :
    h ∈ l.named names ↔ h ∈ l.heads ∧ names h.opening.name = true := List.mem_filter

theorem fillCells_of_none {τ : Type} {v : τ → Option PlainText} {cells : List (Cell τ)}
    (h : ∀ t ∈ cells.filterMap Cell.token?, v t = none) : fillCells v id cells = cells := by
  induction cells with
  | nil => rfl
  | cons cell cells ih =>
    cases cell with
    | char c hc => rw [fillCells, ih (by simpa [Cell.token?] using h)]
    | token t =>
      rw [List.filterMap_cons_some (f := Cell.token?) rfl, List.forall_mem_cons] at h
      simp only [fillCells, h.1, ih h.2, id_eq]

theorem node_fill_of_none {n : Node α} {u : Filling α} (h : ∀ t ∈ n.leaves, u t.tag = none) :
    n.fill u = n := by
  obtain ⟨tag, o, interior⟩ := n
  cases interior with
  | closed => rfl
  | plain body => rfl
  | cells body => rw [Node.fill, Interior.fill, fillCells_of_none h]

theorem node_fill_of_leaves_eq_nil {n : Node α} (h : n.leaves = []) (u : Filling α) :
    n.fill u = n :=
  node_fill_of_none (by simp [h])

/-- The heads of a token are left that are not filled, where its name is one of the class or it is
not filled itself. -/
private theorem named_node_fill {u : Filling α} {n : Node α}
    (hapart : names n.opening.name = true → ∀ t ∈ n.leaves, names t.opening.name = false)
    (honly : ∀ h ∈ n.heads, u h.tag ≠ none → names h.opening.name = true) :
    (if (u n.tag).isNone then
        (n.fill u).heads.filter fun h => names h.opening.name else []) =
      (n.heads.filter fun h => names h.opening.name).filter fun h => (u h.tag).isNone := by
  cases hname : names n.opening.name with
  -- A token of the class holds none of the class, so nothing in it is filled.
  | true =>
    have hleaves : (n.leaves.map Leaf.head).filter (fun h => names h.opening.name) = [] := by
      rw [List.filter_eq_nil_iff, List.forall_mem_map]
      intro t ht
      simp [hapart hname t ht]
    have hfill : n.fill u = n := by
      refine node_fill_of_none fun t ht => ?_
      by_contra hne
      have := honly t.head (List.mem_cons_of_mem _ (List.mem_map_of_mem ht)) hne
      rw [Leaf.head_opening, hapart hname t ht] at this
      exact Bool.noConfusion this
    rw [hfill, Node.heads, List.filter_cons_of_pos (by simpa using hname), hleaves]
    cases hu : u n.tag <;> simp [hu]
  -- Any other is not filled itself, and those in its body are filled one by one.
  | false =>
    have hnone : u n.tag = none := by
      by_contra hne
      have := honly n.head List.mem_cons_self hne
      rw [Node.head_opening, hname] at this
      exact Bool.noConfusion this
    rw [hnone, Node.heads, Node.heads, leaves_fill,
      List.filter_cons_of_neg (by simpa [Node.fill] using hname),
      List.filter_cons_of_neg (by simpa using hname), List.filter_map, List.filter_map,
      List.filter_map, List.filter_filter, List.filter_filter]
    refine congrArg (List.map Leaf.head) (List.filter_congr fun t _ => ?_)
    exact Bool.and_comm _ _

/-- Filling some tokens of a class takes them away and leaves the others of the class. -/
theorem named_fill {l : Layout α} (hapart : l.Apart names) {u : Filling α} (honly : u.Only names l) :
    (l.fill u).named names = (l.named names).filter fun h => (u h.tag).isNone := by
  have honly' : ∀ n ∈ l.nodes, ∀ h ∈ n.heads, u h.tag ≠ none → names h.opening.name = true :=
    fun n hn h hh => honly h (List.mem_flatMap.2 ⟨n, hn, hh⟩)
  rw [Layout.named, Layout.named, Layout.heads, Layout.heads, nodes_fill, List.filter_flatMap,
    List.filter_flatMap, List.filter_flatMap, List.flatMap_map]
  unfold Layout.Apart at hapart
  generalize l.nodes = nodes at hapart honly'
  induction nodes with
  | nil => rfl
  | cons n nodes ih =>
    have hnode := named_node_fill (u := u) (hapart n List.mem_cons_self)
      (honly' n List.mem_cons_self)
    have hrest := ih (fun m hm => hapart m (List.mem_cons_of_mem _ hm))
      fun m hm => honly' m (List.mem_cons_of_mem _ hm)
    rw [List.flatMap_cons, ← hnode, ← hrest, List.filter_cons]
    cases u n.tag <;> simp

theorem Layout.Clear.fill {l : Layout α} (h : l.Clear names) (u : Filling α) :
    (l.fill u).Clear names := by
  intro n' hn' hname
  rw [nodes_fill] at hn'
  obtain ⟨n, hn, rfl⟩ := List.mem_map.1 hn'
  rw [leaves_fill, h n (List.mem_filter.1 hn).1 hname, List.filter_nil]

theorem Layout.Apart.fill {l : Layout α} (h : l.Apart names) (u : Filling α) :
    (l.fill u).Apart names := by
  intro n' hn' hname t ht
  rw [nodes_fill] at hn'
  obtain ⟨n, hn, rfl⟩ := List.mem_map.1 hn'
  rw [leaves_fill] at ht
  exact h n (List.mem_filter.1 hn).1 hname t (List.mem_filter.1 ht).1

/-- The token that a name of the class refers to first is the first in the order of the text. -/
theorem firstNamed_eq_find?_named {l : Layout α} (hapart : l.Apart names) {name : String}
    (hname : names name = true) :
    l.firstNamed name = (l.named names).find? (·.opening.name == name) := by
  have hnode : ∀ n ∈ l.nodes,
      n.firstNamed name = n.heads.find? fun h => names h.opening.name && h.opening.name == name := by
    intro n hn
    have hsame : (fun h : Head α => names h.opening.name && h.opening.name == name) =
        fun h => h.opening.name == name := by
      funext h
      cases heq : h.opening.name == name with
      | true => rw [beq_iff_eq.1 heq, hname]; rfl
      | false => rw [Bool.and_false]
    rw [hsame, Node.firstNamed, Node.heads, List.find?_cons]
    cases heq : n.opening.name == name with
    | true =>
      -- The outer token comes last of the piece, but in its body there is none of the name.
      have hnone : n.leaves.find? (·.opening.name == name) = none := by
        refine List.find?_eq_none.2 fun t ht hleaf => ?_
        have hother := hapart n hn (by rw [beq_iff_eq.1 heq, hname]) t ht
        rw [beq_iff_eq.1 hleaf, hname] at hother
        exact Bool.noConfusion hother
      rw [hnone, Node.head_opening, heq]
      rfl
    | false =>
      rw [Node.head_opening, heq, List.find?_map]
      cases hfind : n.leaves.find? (·.opening.name == name) with
      | some leaf => simp [Function.comp_def, hfind]
      | none => simp [Function.comp_def, hfind]
  rw [Layout.firstNamed, Layout.named, List.find?_filter, Layout.heads, List.find?_flatMap]
  simp only [Bool.decide_and, Bool.decide_eq_true]
  generalize l.nodes = nodes at hnode
  induction nodes with
  | nil => rfl
  | cons n nodes ih =>
    rw [List.findSome?_cons, List.findSome?_cons, hnode n List.mem_cons_self,
      ih fun m hm => hnode m (List.mem_cons_of_mem _ hm)]

/-- The token of a name that is evaluated next in a text is the first one of its layout. -/
theorem firstNamed_of_named {source name : String} {l : Layout α} (h : source.toList = l.write)
    (hapart : l.Apart (· == name)) :
    match l.named (· == name) with
    | [] => firstNamed source name = none
    | head :: _ => ∃ pos nested, (head, pos) ∈ l.marks 0 ∧
        firstNamed source name = some (head.token pos, nested) := by
  have hfirst := firstNamed_write name h
  rw [firstNamed_eq_find?_named hapart (beq_self_eq_true name)] at hfirst
  cases hnamed : l.named (· == name) with
  | nil =>
    rw [hnamed] at hfirst
    exact hfirst
  | cons head heads =>
    have hmem : head ∈ l.named (· == name) := by
      rw [hnamed]
      exact List.mem_cons_self
    have hname : (head.opening.name == name) = true := (mem_named.1 hmem).2
    rw [hnamed, List.find?_cons, hname] at hfirst
    exact hfirst

/-! ## §2 Layouts without nesting -/

/-- A leaf that stands in no other token. -/
def Leaf.node (t : Leaf α) : Node α :=
  ⟨t.tag, t.opening, match t.body with
    | none => .closed
    | some body => .plain body⟩

@[simp] theorem Leaf.node_head (t : Leaf α) : t.node.head = t.head := by
  obtain ⟨tag, o, body⟩ := t
  cases body <;> rfl

theorem Leaf.node_leaves (t : Leaf α) : t.node.leaves = [] := by
  obtain ⟨tag, o, body⟩ := t
  cases body <;> rfl

theorem Leaf.node_nested (t : Leaf α) (pos : Nat) : t.node.nested pos = [] := by
  obtain ⟨tag, o, body⟩ := t
  cases body <;> rfl

/-- A place whose token stands in no other. -/
def Cell.unnested : Cell (Leaf α) → Cell (Node α)
  | char c plain => char c plain
  | token t => token t.node

/-- The layout of places that stand in no token. -/
def flat (cells : List (Cell (Leaf α))) : Layout α := cells.map Cell.unnested

theorem write_flat (cells : List (Cell (Leaf α))) :
    (flat cells).write = writeCells Leaf.write cells := by
  rw [Layout.write, flat, writeCells, writeCells, List.flatMap_map]
  refine List.flatMap_congr fun cell _ => ?_
  cases cell with
  | char c plain => rfl
  | token t => exact congrArg Head.chars t.node_head

theorem marks_flat (cells : List (Cell (Leaf α))) (pos : Nat) :
    (flat cells).marks pos = (place Leaf.write pos cells).map fun (t, p) => (t.head, p) := by
  induction cells generalizing pos with
  | nil => rfl
  | cons cell cells ih =>
    cases cell with
    | char c plain => exact ih (pos + c.utf8Size)
    | token t =>
      have hwrite : t.node.write = t.write := congrArg Head.chars t.node_head
      have htoken : (flat (.token t :: cells)).marks pos = (t.node.head, pos) ::
          (t.node.nested pos ++ (flat cells).marks (pos + byteLength t.node.write)) := rfl
      rw [htoken, t.node_head, t.node_nested, List.nil_append, hwrite, ih]
      rfl

theorem nodes_flat (cells : List (Cell (Leaf α))) :
    (flat cells).nodes = (cells.filterMap Cell.token?).map Leaf.node := by
  rw [Layout.nodes, flat, List.filterMap_map, List.map_filterMap]
  refine List.filterMap_congr fun cell _ => ?_
  cases cell <;> rfl

theorem heads_flat (cells : List (Cell (Leaf α))) :
    (flat cells).heads = (cells.filterMap Cell.token?).map Leaf.head := by
  rw [Layout.heads, nodes_flat, List.flatMap_map, List.map_eq_flatMap]
  refine List.flatMap_congr fun t _ => ?_
  rw [Node.heads, t.node_head, t.node_leaves, List.map_nil]

theorem flat_ofText_append (text : PlainText) (cells : List (Cell (Leaf α))) :
    flat (Cell.ofText text ++ cells) = Cell.ofText text ++ flat cells := by
  obtain ⟨cs, h⟩ := text
  induction cs with
  | nil => rfl
  | cons c cs ih => exact congrArg (Cell.char c h.head :: ·) (ih h.tail)

theorem fill_flat (u : Filling α) (cells : List (Cell (Leaf α))) :
    (flat cells).fill u = flat (fillCells (fun t => u t.tag) id cells) := by
  induction cells with
  | nil => rfl
  | cons cell cells ih =>
    rw [Layout.fill] at ih ⊢
    cases cell with
    | char c plain => exact congrArg (Cell.char c plain :: ·) ih
    | token t =>
      have hcons : flat (.token t :: cells) = .token t.node :: flat cells := rfl
      have htag : t.node.tag = t.tag := rfl
      rw [hcons, fillCells, fillCells, ih, htag]
      cases u t.tag with
      | some text => exact (flat_ofText_append text _).symm
      | none =>
        rw [node_fill_of_leaves_eq_nil t.node_leaves]
        rfl

theorem clear_flat (names : String → Bool) (cells : List (Cell (Leaf α))) :
    (flat cells).Clear names := by
  intro n hn _
  rw [nodes_flat] at hn
  obtain ⟨t, -, rfl⟩ := List.mem_map.1 hn
  exact t.node_leaves

/-- A template without tokens in bodies, whose braces stand in tokens, is such a layout. -/
theorem exists_flat {template : String} (f : Token → α) (hflat : Unnested template)
    (hbraces : OnlyInTokens isBrace template) :
    ∃ cells : List (Cell (Leaf α)), template.toList = (flat cells).write ∧
      ∀ m ∈ (flat cells).marks 0, m.1.tag = f (m.1.token m.2) := by
  obtain ⟨cells, hcells, -, htags⟩ := exists_leaves f (fun _ h => h) hflat hbraces
  refine ⟨cells, by rw [write_flat, hcells], ?_⟩
  rw [marks_flat, List.forall_mem_map]
  exact fun m hm => htags m.1 m.2 hm

/-! ## §3 Tokens whose bodies are text -/

/-- Whether the body of a head is text, if it has one. -/
def Head.IsPlain (h : Head α) : Prop := ∀ body, h.body = some body → BraceFree body

theorem leaves_of_isPlain {n : Node α} (h : n.head.IsPlain) : n.leaves = [] := by
  obtain ⟨tag, o, interior⟩ := n
  cases interior with
  | closed => rfl
  | plain body => rfl
  | cells body =>
    refine List.filterMap_eq_nil_iff.2 fun cell hcell => ?_
    cases cell with
    | char c hc => rfl
    | token t =>
      -- Its opening braces would stand in the body.
      obtain ⟨before, after, rfl⟩ := List.append_of_mem hcell
      have hfree := h _ rfl
      rw [writeCells_append, writeCells_token, braceFree_append, braceFree_append] at hfree
      obtain ⟨tail, htail⟩ : ∃ tail, t.write = '{' :: tail := by
        obtain ⟨tag, o, body⟩ := t
        cases body <;> exact ⟨_, rfl⟩
      rw [htail] at hfree
      exact absurd hfree.2.1.head (by decide)

/-- A head that is left is one of those before; if the body of that is text, it is as it was. -/
theorem eq_of_mem_heads_fill {v : Filling α} {l : Layout α} {h : Head α}
    (hmem : h ∈ (l.fill v).heads) :
    ∃ h₀ ∈ l.heads, h₀.tag = h.tag ∧ h₀.opening = h.opening ∧ (h₀.IsPlain → h = h₀) := by
  rw [Layout.heads, nodes_fill] at hmem
  obtain ⟨n', hn', hmem⟩ := List.mem_flatMap.1 hmem
  obtain ⟨n, hn, rfl⟩ := List.mem_map.1 hn'
  obtain ⟨hn, -⟩ := List.mem_filter.1 hn
  rcases List.mem_cons.1 hmem with rfl | hmem
  · refine ⟨n.head, head_mem_heads hn, rfl, rfl, fun hplain => ?_⟩
    rw [node_fill_of_leaves_eq_nil (leaves_of_isPlain hplain)]
  · rw [leaves_fill] at hmem
    obtain ⟨leaf, hleaf, rfl⟩ := List.mem_map.1 hmem
    obtain ⟨hleaf, -⟩ := List.mem_filter.1 hleaf
    exact ⟨leaf.head, leaf_mem_heads hn hleaf, rfl, rfl, fun _ => rfl⟩

end Stencil.Template
