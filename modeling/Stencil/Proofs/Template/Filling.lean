import Stencil.Proofs.Template.Lookups
import Stencil.Proofs.Template.Splicing

/-!
# Filling Layouts

A filling gives some of the tags of a layout a text without braces.  Filling a layout puts these
texts in the place of the tokens with those tags; a token that is filled takes the tokens in its
body with it.

Filling a layout and then writing it is the same as writing it and then splicing, so the text of a
rendering is followed by following the layout.

Main statements: `patched_fill`, `fill_fill` and `firstNamed_write`.
-/

namespace Stencil.Template

open Stencil.Text

variable {α τ : Type}

/-- Texts without braces for some tags. -/
abbrev Filling (α : Type) := α → Option PlainText

/-- The text for a tag, empty if there is none. -/
def Filling.textAt (v : Filling α) (a : α) : String :=
  match v a with
  | some text => .ofList text.1
  | none => ""

theorem Filling.textAt_of_some {v : Filling α} {a : α} {text : PlainText} (h : v a = some text) :
    v.textAt a = .ofList text.1 := by
  simp [textAt, h]

/-! ## §1 Filling -/

/-- Puts texts in the place of some tokens and changes the others. -/
def fillCells (v : τ → Option PlainText) (f : τ → τ) : List (Cell τ) → List (Cell τ)
  | [] => []
  | .char c h :: cells => .char c h :: fillCells v f cells
  | .token t :: cells =>
    match v t with
    | some text => Cell.ofText text ++ fillCells v f cells
    | none => .token (f t) :: fillCells v f cells

/-- Fills what stands in a token. -/
def Interior.fill (v : Filling α) : Interior α → Interior α
  | closed => closed
  | plain body => plain body
  | cells body => cells (fillCells (fun t => v t.tag) id body)

/-- Fills what stands in a token. -/
def Node.fill (v : Filling α) (n : Node α) : Node α := { n with interior := n.interior.fill v }

/-- Fills a layout. -/
def Layout.fill (v : Filling α) (l : Layout α) : Layout α :=
  fillCells (fun n => v n.tag) (Node.fill v) l

theorem fillCells_append (v : τ → Option PlainText) (f : τ → τ) (cells cells' : List (Cell τ)) :
    fillCells v f (cells ++ cells') = fillCells v f cells ++ fillCells v f cells' := by
  induction cells with
  | nil => rfl
  | cons cell cells ih =>
    cases cell with
    | char c h => exact congrArg (Cell.char c h :: ·) ih
    | token t =>
      simp only [List.cons_append, fillCells, ih]
      cases v t with
      | some text => exact (List.append_assoc _ _ _).symm
      | none => rfl

theorem fillCells_ofText_append (v : τ → Option PlainText) (f : τ → τ) (text : PlainText)
    (cells : List (Cell τ)) :
    fillCells v f (Cell.ofText text ++ cells) = Cell.ofText text ++ fillCells v f cells := by
  obtain ⟨cs, h⟩ := text
  induction cs with
  | nil => rfl
  | cons c cs ih => exact congrArg (_ :: ·) (ih h.tail)

theorem fillCells_fillCells {u v w : τ → Option PlainText} {f g : τ → τ}
    (hw : ∀ t, w t = (u t).or (v (f t))) (cells : List (Cell τ)) :
    fillCells v g (fillCells u f cells) = fillCells w (g ∘ f) cells := by
  induction cells with
  | nil => rfl
  | cons cell cells ih =>
    cases cell with
    | char c h => simp only [fillCells, ih]
    | token t =>
      simp only [fillCells, hw]
      cases hu : u t with
      | some text => simp only [fillCells_ofText_append, ih, Option.some_or]
      | none => simp only [fillCells, ih, Option.none_or, Function.comp_apply]

/-- One filling after another, the first one counting where both give a text. -/
def Filling.then (u v : Filling α) : Filling α := fun a => (u a).or (v a)

@[simp] theorem Filling.then_none (u : Filling α) : u.then (fun _ => none) = u := by
  funext a
  exact Option.or_none

@[simp] theorem Filling.none_then (u : Filling α) : Filling.then (fun _ => none) u = u := by
  funext a
  exact Option.none_or

theorem Filling.then_then (u v w : Filling α) : (u.then v).then w = u.then (v.then w) := by
  funext a
  exact Option.or_assoc

theorem node_fill_fill (u v : Filling α) (n : Node α) : (n.fill u).fill v = n.fill (u.then v) := by
  obtain ⟨tag, o, interior⟩ := n
  cases interior with
  | closed => rfl
  | plain body => rfl
  | cells body =>
    exact congrArg (fun body => Node.mk tag o (.cells body)) (fillCells_fillCells (fun _ => rfl) body)

theorem fill_fill (u v : Filling α) (l : Layout α) : (l.fill u).fill v = l.fill (u.then v) := by
  have hnode : Node.fill v ∘ Node.fill u = Node.fill (u.then v) := funext (node_fill_fill u v)
  rw [Layout.fill, Layout.fill, Layout.fill, ← hnode]
  exact fillCells_fillCells (fun _ => rfl) l

theorem fillCells_none {f : τ → τ} (hf : ∀ t, f t = t) (cells : List (Cell τ)) :
    fillCells (fun _ => none) f cells = cells := by
  induction cells with
  | nil => rfl
  | cons cell cells ih =>
    cases cell with
    | char c h => rw [fillCells, ih]
    | token t => simp only [fillCells, ih, hf]

theorem fill_none (l : Layout α) : l.fill (fun _ => none) = l := by
  refine fillCells_none (fun n => ?_) l
  obtain ⟨tag, o, interior⟩ := n
  cases interior with
  | closed => rfl
  | plain body => rfl
  | cells body =>
    have hbody : fillCells (fun _ => none) id body = body := fillCells_none (fun _ => rfl) body
    rw [Node.fill, Interior.fill, hbody]

/-! ## §2 The tokens of a layout -/

/-- The token of a place. -/
def Cell.token? : Cell τ → Option τ
  | char _ _ => none
  | token t => some t

/-- The tokens in the body of a token. -/
def Node.leaves (n : Node α) : List (Leaf α) :=
  match n.interior with
  | .cells body => body.filterMap Cell.token?
  | _ => []

/-- The tokens of a layout that stand in no other. -/
def Layout.nodes (l : Layout α) : List (Node α) := l.filterMap Cell.token?

/-- The head of a token and those of the tokens in its body. -/
def Node.heads (n : Node α) : List (Head α) := n.head :: n.leaves.map Leaf.head

/-- The heads of a layout, in the order of their opening braces. -/
def Layout.heads (l : Layout α) : List (Head α) := l.nodes.flatMap Node.heads

/-- The tags of a layout, in the order of their opening braces. -/
def Layout.tags (l : Layout α) : List α := l.heads.map Head.tag

theorem head_mem_heads {l : Layout α} {n : Node α} (hn : n ∈ l.nodes) : n.head ∈ l.heads :=
  List.mem_flatMap.2 ⟨n, hn, List.mem_cons_self⟩

theorem leaf_mem_heads {l : Layout α} {n : Node α} (hn : n ∈ l.nodes) {t : Leaf α}
    (ht : t ∈ n.leaves) : t.head ∈ l.heads :=
  List.mem_flatMap.2 ⟨n, hn, List.mem_cons_of_mem _ (List.mem_map_of_mem ht)⟩

theorem map_fst_place (w : τ → List Char) (pos : Nat) (cells : List (Cell τ)) :
    (place w pos cells).map Prod.fst = cells.filterMap Cell.token? := by
  induction cells generalizing pos with
  | nil => rfl
  | cons cell cells ih =>
    cases cell with
    | char c h => rw [place, ih]; rfl
    | token t => rw [place, List.map_cons, ih]; rfl

theorem map_fst_nested (n : Node α) (pos : Nat) :
    (n.nested pos).map Prod.fst = n.leaves.map Leaf.head := by
  obtain ⟨tag, o, interior⟩ := n
  cases interior with
  | closed => rfl
  | plain body => rfl
  | cells body =>
    simp only [Node.nested, Node.leaves, ← map_fst_place Leaf.write (o.inside pos), List.map_map]
    rfl

theorem map_fst_marks (l : Layout α) (pos : Nat) : (l.marks pos).map Prod.fst = l.heads := by
  rw [Layout.heads, Layout.nodes, ← map_fst_place Node.write pos, Layout.marks, List.map_flatMap,
    List.flatMap_map]
  refine List.flatMap_congr fun m _ => ?_
  rw [List.map_cons, map_fst_nested, Node.heads]

theorem filterMap_token?_ofText (text : PlainText) :
    (Cell.ofText text : List (Cell τ)).filterMap Cell.token? = [] := by
  obtain ⟨cs, h⟩ := text
  induction cs with
  | nil => rfl
  | cons c cs ih => exact ih h.tail

theorem filterMap_token?_fillCells (v : τ → Option PlainText) (f : τ → τ) (cells : List (Cell τ)) :
    (fillCells v f cells).filterMap Cell.token? =
      ((cells.filterMap Cell.token?).filter fun t => (v t).isNone).map f := by
  induction cells with
  | nil => rfl
  | cons cell cells ih =>
    cases cell with
    | char c h =>
      rw [fillCells, List.filterMap_cons_none rfl, List.filterMap_cons_none rfl, ih]
    | token t =>
      rw [fillCells, List.filterMap_cons_some (f := Cell.token?) rfl]
      cases hv : v t with
      -- A text takes the place of the token, and holds none itself.
      | some text =>
        rw [List.filter_cons_of_neg (by simp [hv]), List.filterMap_append,
          filterMap_token?_ofText, List.nil_append, ih]
      | none =>
        rw [List.filter_cons_of_pos (by simp [hv]), List.map_cons, ← ih]
        rfl

/-- The outer tokens that are left when a layout is filled. -/
theorem nodes_fill (v : Filling α) (l : Layout α) :
    (l.fill v).nodes = (l.nodes.filter fun n => (v n.tag).isNone).map (Node.fill v) :=
  filterMap_token?_fillCells _ _ l

theorem leaves_fill (v : Filling α) (n : Node α) :
    (n.fill v).leaves = n.leaves.filter fun t => (v t.tag).isNone := by
  obtain ⟨tag, o, interior⟩ := n
  cases interior with
  | closed => rfl
  | plain body => rfl
  | cells body =>
    have hbody := filterMap_token?_fillCells (fun t : Leaf α => v t.tag) id body
    rw [List.map_id] at hbody
    exact hbody

/-- The heads that are left are in the order they had, with the tags and openings they had. -/
theorem heads_fill_sublist (v : Filling α) (l : Layout α) :
    ((l.fill v).heads.map fun h => (h.tag, h.opening)).Sublist
      (l.heads.map fun h => (h.tag, h.opening)) := by
  rw [Layout.heads, Layout.heads, nodes_fill, List.map_flatMap, List.map_flatMap, List.flatMap_map]
  induction l.nodes with
  | nil => simp
  | cons n nodes ih =>
    -- A token that is left keeps its own head, and some of those in its body.
    have hheads : ((n.fill v).heads.map fun h => (h.tag, h.opening)).Sublist
        (n.heads.map fun h => (h.tag, h.opening)) := by
      rw [Node.heads, Node.heads, leaves_fill, List.map_cons, List.map_cons]
      exact ((List.filter_sublist.map _).map _).cons_cons _
    rw [List.filter_cons, List.flatMap_cons]
    split
    · rw [List.flatMap_cons]
      exact hheads.append ih
    · exact ih.trans (List.sublist_append_right _ _)

theorem tags_fill_sublist (v : Filling α) (l : Layout α) : (l.fill v).tags.Sublist l.tags := by
  simpa [Layout.tags, Function.comp_def] using (heads_fill_sublist v l).map Prod.fst

/-- A head that is left is one of those before, and not filled; only its body may have changed. -/
theorem mem_heads_fill {v : Filling α} {l : Layout α} {h : Head α} (hmem : h ∈ (l.fill v).heads) :
    v h.tag = none ∧ ∃ h₀ ∈ l.heads, h₀.tag = h.tag ∧ h₀.opening = h.opening := by
  rw [Layout.heads, nodes_fill] at hmem
  obtain ⟨n', hn', hmem⟩ := List.mem_flatMap.1 hmem
  obtain ⟨n, hn, rfl⟩ := List.mem_map.1 hn'
  obtain ⟨hn, hv⟩ := List.mem_filter.1 hn
  rcases List.mem_cons.1 hmem with rfl | hmem
  · refine ⟨Option.isNone_iff_eq_none.1 hv, n.head, ?_, rfl, rfl⟩
    exact head_mem_heads hn
  · rw [leaves_fill] at hmem
    obtain ⟨leaf, hleaf, rfl⟩ := List.mem_map.1 hmem
    obtain ⟨hleaf, hv'⟩ := List.mem_filter.1 hleaf
    refine ⟨Option.isNone_iff_eq_none.1 hv', leaf.head, ?_, rfl, rfl⟩
    exact leaf_mem_heads hn hleaf

theorem heads_fill_eq_nil {v : Filling α} {l : Layout α} (hall : ∀ h ∈ l.heads, v h.tag ≠ none) :
    (l.fill v).heads = [] := by
  refine List.eq_nil_iff_forall_not_mem.2 fun h hh => ?_
  obtain ⟨hnone, h₀, hh₀, htag, -⟩ := mem_heads_fill hh
  exact hall h₀ hh₀ (htag ▸ hnone)

theorem length_heads_fill_le (v : Filling α) (l : Layout α) :
    (l.fill v).heads.length ≤ l.heads.length := by
  simpa using (heads_fill_sublist v l).length_le

/-- A head that is filled is no longer there, so there are fewer. -/
theorem length_heads_fill_lt {v : Filling α} {l : Layout α} {h : Head α} (hh : h ∈ l.heads)
    (hv : v h.tag ≠ none) : (l.fill v).heads.length < l.heads.length := by
  have hsublist := tags_fill_sublist v l
  have hle := hsublist.length_le
  rw [Layout.tags, Layout.tags, List.length_map, List.length_map] at hle
  refine Nat.lt_of_le_of_ne hle fun heq => ?_
  have htags := hsublist.eq_of_length (by rw [Layout.tags, Layout.tags, List.length_map,
    List.length_map, heq])
  have hmem : h.tag ∈ (l.fill v).tags := by
    rw [htags]
    exact List.mem_map_of_mem hh
  obtain ⟨h', hh', htag⟩ := List.mem_map.1 hmem
  exact hv (htag ▸ (mem_heads_fill hh').1)

/-- Heads that are written alike are the same token wherever they stand. -/
theorem token_of_chars_eq {h h' : Head α} (heq : h.chars = h'.chars) (pos : Nat) :
    h.token pos = h'.token pos := by
  -- Behind the header, what is left is the body with the closing braces, if there is one.
  have hreads (h : Head α) : scanHeader (h.chars.drop 2) =
      some (⟨h.opening.name, h.opening.args, if h.body.isNone then .closed else .colon⟩,
        (h.body.map (· ++ ['}', '}'])).getD []) := by
    obtain ⟨tag, o, body⟩ := h
    cases body with
    | none => simpa [Head.chars, Opening.write, HeaderEnd.chars] using o.reads .closed []
    | some body =>
      simpa [Head.chars, Opening.write, HeaderEnd.chars] using o.reads .colon (body ++ ['}', '}'])
  have hsame := hreads h
  rw [heq, hreads h', Option.some.injEq, Prod.mk.injEq, Header.mk.injEq] at hsame
  obtain ⟨⟨hname, hargs, hending⟩, hrest⟩ := hsame
  have hbody : h'.body = h.body := by
    cases hb : h.body with
    | none =>
      cases hb' : h'.body with
      | none => rfl
      | some body' => simp [hb, hb'] at hending
    | some body =>
      cases hb' : h'.body with
      | none => simp [hb, hb'] at hending
      | some body' => simpa [hb, hb'] using hrest
  rw [Head.token, Head.token, hname, hargs, hbody, heq]

theorem pairwise_place (w : τ → List Char) (pos : Nat) (cells : List (Cell τ)) :
    (place w pos cells).Pairwise fun m m' => m.2 + byteLength (w m.1) ≤ m'.2 := by
  induction cells generalizing pos with
  | nil => exact .nil
  | cons cell cells ih =>
    cases cell with
    | char c hc => exact ih (pos + c.utf8Size)
    | token t =>
      refine List.pairwise_cons.2 ⟨fun m hm => ?_, ih _⟩
      exact (bounds_of_mem_place hm).1

theorem Head.chars_ne_nil (h : Head α) : h.chars ≠ [] := by
  obtain ⟨tag, o, body⟩ := h
  cases body with
  | none => exact List.cons_ne_nil _ _
  | some body => exact List.cons_ne_nil _ _

theorem bounds_of_mem_nested {n : Node α} {pos : Nat} {m : Head α × Nat} (hm : m ∈ n.nested pos) :
    pos < m.2 ∧ m.2 < pos + byteLength n.write := by
  obtain ⟨hlt, hat⟩ :=
    (n.written pos).flat _ (List.mem_map_of_mem (f := fun m => m.1.token m.2) hm)
  obtain ⟨-, -, hpos, hle⟩ := hat.bounds
  exact ⟨hlt, Nat.lt_of_lt_of_le hpos hle⟩

theorem pairwise_nested (n : Node α) (pos : Nat) :
    (n.nested pos).Pairwise fun m m' => m.2 < m'.2 := by
  obtain ⟨tag, o, interior⟩ := n
  cases interior with
  | closed => exact .nil
  | plain body => exact .nil
  | cells body =>
    refine List.pairwise_map.2 ((pairwise_place Leaf.write (o.inside pos) body).imp ?_)
    rintro ⟨t, p⟩ ⟨t', p'⟩ hle
    have hpos := byteLength_pos t.head.chars_ne_nil
    exact Nat.lt_of_lt_of_le (Nat.lt_add_of_pos_right hpos) hle

theorem pairwise_marks (l : Layout α) (pos : Nat) :
    (l.marks pos).Pairwise fun m m' => m.2 < m'.2 := by
  -- A token and those in its body start before a later token does.
  have hwithin : ∀ n p, ∀ m ∈ (n.head, p) :: Node.nested (α := α) n p,
      p ≤ m.2 ∧ m.2 < p + byteLength n.write := by
    intro n p m hm
    rcases List.mem_cons.1 hm with rfl | hm
    · exact ⟨Nat.le_refl _, Nat.lt_add_of_pos_right (byteLength_pos n.head.chars_ne_nil)⟩
    · have := bounds_of_mem_nested hm
      exact ⟨Nat.le_of_lt this.1, this.2⟩
  rw [Layout.marks, List.pairwise_flatMap]
  constructor
  · rintro ⟨n, p⟩ -
    exact List.pairwise_cons.2 ⟨fun m hm => (bounds_of_mem_nested hm).1, pairwise_nested n p⟩
  · refine (pairwise_place Node.write pos l).imp ?_
    rintro ⟨n, p⟩ ⟨n', p'⟩ hle m hm m' hm'
    have hfirst := (hwithin n p m hm).2
    have hsecond := (hwithin n' p' m' hm').1
    exact Nat.lt_of_lt_of_le hfirst (Nat.le_trans hle hsecond)

/-- Tags that tell apart where tokens stand tell the tokens apart. -/
theorem nodup_tags_of_injective {l : Layout α} {f : Span → α} (hf : Function.Injective f)
    (htags : ∀ m ∈ l.marks 0, m.1.tag = f (m.1.token m.2).span) : l.tags.Nodup := by
  rw [Layout.tags, ← map_fst_marks l 0, List.map_map, List.nodup_iff_pairwise_ne, List.pairwise_map]
  refine (pairwise_marks l 0).imp_of_mem fun {m m'} hm hm' hlt heq => ?_
  rw [Function.comp_apply, Function.comp_apply, htags m hm, htags m' hm'] at heq
  have hstart : m.2 = m'.2 := congrArg Span.start (hf heq)
  omega

theorem nodup_tags_of_span {l : Layout Span}
    (htags : ∀ m ∈ l.marks 0, m.1.tag = (m.1.token m.2).span) : l.tags.Nodup :=
  nodup_tags_of_injective Function.injective_id htags

/-- Whether a filling gives texts to just some heads, one to each. -/
structure Filling.Assigns (v : Filling α) (heads : List (Head α)) (texts : List String) : Prop where
  /-- These are the texts. -/
  texts : texts = heads.map fun h => v.textAt h.tag
  /-- Every head gets one. -/
  all : ∀ h ∈ heads, v h.tag ≠ none
  /-- Nothing else does. -/
  only : ∀ a, v a ≠ none → ∃ h ∈ heads, h.tag = a

theorem Filling.Assigns.nil : Filling.Assigns (α := α) (fun _ => none) [] [] :=
  ⟨rfl, by simp, by simp⟩

/-- One filling after another gives its texts to further heads. -/
theorem Filling.Assigns.append {v w : Filling α} {heads heads' : List (Head α)}
    {texts texts' : List String} (hv : v.Assigns heads texts) (hw : w.Assigns heads' texts')
    (hnone : ∀ h ∈ heads', v h.tag = none) :
    (v.then w).Assigns (heads ++ heads') (texts ++ texts') := by
  -- Each filling is what counts for its own heads.
  have hfirst : ∀ h ∈ heads, (v.then w) h.tag = v h.tag := by
    intro h hh
    obtain ⟨text, htext⟩ := Option.ne_none_iff_exists'.1 (hv.all h hh)
    rw [Filling.then, htext, Option.some_or]
  have hsecond : ∀ h ∈ heads', (v.then w) h.tag = w h.tag := by
    intro h hh
    rw [Filling.then, hnone h hh, Option.none_or]
  refine ⟨?_, ?_, ?_⟩
  · rw [List.map_append, hv.texts, hw.texts]
    refine congrArg₂ (· ++ ·) (List.map_congr_left fun h hh => ?_)
      (List.map_congr_left fun h hh => ?_)
    · rw [Filling.textAt, Filling.textAt, hfirst h hh]
    · rw [Filling.textAt, Filling.textAt, hsecond h hh]
  · intro h hh
    rcases List.mem_append.1 hh with hh | hh
    · rw [hfirst h hh]
      exact hv.all h hh
    · rw [hsecond h hh]
      exact hw.all h hh
  · intro a ha
    cases hva : v a with
    | some text =>
      obtain ⟨h, hh, htag⟩ := hv.only a (by simp [hva])
      exact ⟨h, List.mem_append_left _ hh, htag⟩
    | none =>
      rw [Filling.then, hva, Option.none_or] at ha
      obtain ⟨h, hh, htag⟩ := hw.only a ha
      exact ⟨h, List.mem_append_right _ hh, htag⟩

/-! ## §3 Filling by splicing -/

/-- The edit that puts a text in the place of a head that stands at a position. -/
def Head.edit (h : Head α) (pos : Nat) (text : PlainText) : Edit :=
  ⟨(h.token pos).span, .ofList text.1⟩

/-- The edits that put texts in the place of some tokens of a list of heads. -/
def editsAt (v : Filling α) (marks : List (Head α × Nat)) : List Edit :=
  marks.filterMap fun (h, p) => (v h.tag).map (h.edit p)

/-- The edits that fill a token that stands at a position. -/
def Node.edits (v : Filling α) (n : Node α) (pos : Nat) : List Edit :=
  match v n.tag with
  | some text => [n.head.edit pos text]
  | none => editsAt v (n.nested pos)

/-- The edits that fill a layout that starts at a position. -/
def Layout.edits (v : Filling α) (l : Layout α) (pos : Nat) : List Edit :=
  (place Node.write pos l).flatMap fun (n, p) => n.edits v p

theorem Head.patched (h : Head α) (pos : Nat) (text : PlainText) :
    Patched pos h.chars [h.edit pos text] text.1 := by
  have hwhole := Patched.whole pos (.ofList text.1) h.chars_ne_nil
  rwa [String.toList_ofList] at hwhole

theorem editsAt_cons_some {v : Filling α} {h : Head α} {text : PlainText} (hv : v h.tag = some text)
    (pos : Nat) (marks : List (Head α × Nat)) :
    editsAt v ((h, pos) :: marks) = h.edit pos text :: editsAt v marks := by
  simp [editsAt, hv]

theorem editsAt_cons_none {v : Filling α} {h : Head α} (hv : v h.tag = none) (pos : Nat)
    (marks : List (Head α × Nat)) : editsAt v ((h, pos) :: marks) = editsAt v marks := by
  simp [editsAt, hv]

/-- Filling the tokens of a body is a patch. -/
theorem patched_fillCells (v : Filling α) (pos : Nat) (cells : List (Cell (Leaf α))) :
    Patched pos (writeCells Leaf.write cells)
      (editsAt v ((place Leaf.write pos cells).map fun (t, p) => (t.head, p)))
      (writeCells Leaf.write (fillCells (fun t => v t.tag) id cells)) := by
  induction cells generalizing pos with
  | nil => exact .nil pos
  | cons cell cells ih =>
    cases cell with
    | char c hc => exact .keep c (ih (pos + c.utf8Size))
    | token t =>
      have htail := ih (pos + byteLength t.write)
      rw [place, List.map_cons, fillCells]
      cases hv : v t.tag with
      -- The token is one edit, or kept as it is written.
      | some text =>
        rw [editsAt_cons_some (h := t.head) hv, writeCells_append, writeCells_ofText]
        exact (t.head.patched pos text).append htail
      | none =>
        rw [editsAt_cons_none (h := t.head) hv]
        exact htail.keep_append t.write

/-- Filling the tokens in a token is a patch. -/
theorem patched_node_fill (v : Filling α) (n : Node α) (pos : Nat) :
    Patched pos n.write (editsAt v (n.nested pos)) (n.fill v).write := by
  obtain ⟨tag, o, interior⟩ := n
  cases interior with
  | closed => exact .refl pos _
  | plain body => exact .refl pos _
  | cells body =>
    have hbody := patched_fillCells v (o.inside pos) body
    have hwrite (b : List (Cell (Leaf α))) : Node.write ⟨tag, o, .cells b⟩ =
        ('{' :: '{' :: (o.chars ++ [':'])) ++ (writeCells Leaf.write b ++ ['}', '}']) := by
      simp [Node.write, Node.head, Interior.chars?, Head.chars, Opening.write]
    rw [Node.fill, Interior.fill, hwrite, hwrite]
    exact (hbody.append_keep ['}', '}']).keep_append _

/-- Filling a layout is a patch. -/
theorem patched_fill (v : Filling α) (l : Layout α) (pos : Nat) :
    Patched pos l.write (l.edits v pos) (l.fill v).write := by
  induction l generalizing pos with
  | nil => exact .nil pos
  | cons cell l ih =>
    cases cell with
    | char c hc => exact .keep c (ih (pos + c.utf8Size))
    | token n =>
      have htail := ih (pos + byteLength n.write)
      have hedits : Layout.edits v (.token n :: l) pos =
          n.edits v pos ++ Layout.edits v l (pos + byteLength n.write) := rfl
      rw [hedits, Layout.fill, fillCells, Node.edits]
      cases hv : v n.tag with
      -- The token is one edit with all that is in it, or patched where the tokens in its body are.
      | some text =>
        rw [Layout.write, Layout.write, writeCells_append, writeCells_ofText]
        exact (n.head.patched pos text).append htail
      | none => exact (patched_node_fill v n pos).append htail

/-! ## §4 Texts that are layouts -/

/-- The tokens of a text are those of its layout. -/
theorem tokens_of_layout {source : String} {l : Layout α} (h : source.toList = l.write) :
    tokens source = (l.marks 0).map fun (h, p) => h.token p := by
  rw [tokens, pieces, h, flatMap_tokens_scanPieces_write]

/-- The pieces of a text that are tokens are those of the tokens of its layout. -/
theorem token_mem_pieces_iff {source : String} {l : Layout α} (h : source.toList = l.write) {outer : Token}
    {nested : List Token} : .token outer nested ∈ pieces source ↔
      ∃ n p, (n, p) ∈ place Node.write 0 l ∧ n.piece p = .token outer nested := by
  have hfilter : .token outer nested ∈ pieces source ↔
      .token outer nested ∈ (pieces source).filter Piece.isToken := by
    simp [Piece.isToken]
  rw [hfilter, pieces, h, filter_scanPieces_write, List.mem_map]
  exact Prod.exists

/-- The tokens of a name are those at the marks of its layout with the name. -/
theorem tokensNamed_of_layout {source : String} {l : Layout α} (h : source.toList = l.write)
    (name : String) : tokensNamed source name =
      ((l.marks 0).filter fun m => m.1.opening.name == name).map fun m => m.1.token m.2 := by
  rw [tokensNamed, tokens_of_layout h, List.filter_map]
  rfl

/-- The heads of a layout are tokens of its text. -/
theorem exists_token_of_mem_heads {source : String} {l : Layout α} (hl : source.toList = l.write)
    {h : Head α} (hh : h ∈ l.heads) : ∃ pos, (h, pos) ∈ l.marks 0 ∧ h.token pos ∈ tokens source := by
  rw [← map_fst_marks l 0] at hh
  obtain ⟨mark, hmark, rfl⟩ := List.mem_map.1 hh
  refine ⟨mark.2, hmark, ?_⟩
  rw [tokens_of_layout hl]
  exact List.mem_map_of_mem (f := fun m : Head α × Nat => m.1.token m.2) hmark

theorem length_tokens_of_layout {source : String} {l : Layout α} (h : source.toList = l.write) :
    (tokens source).length = l.heads.length := by
  rw [tokens_of_layout h, List.length_map, ← map_fst_marks l 0, List.length_map]

/-- The layout of a brace-clean template, each token tagged by where it stands. -/
theorem exists_spanned_layout {template : String} (h : BraceClean template) :
    ∃ l : Layout Span, template.toList = l.write ∧ l.tags.Nodup ∧
      l.heads.length = (tokens template).length ∧
      ∀ m ∈ l.marks 0, m.1.tag = (m.1.token m.2).span := by
  obtain ⟨l, hl, htags⟩ := exists_layout Token.span h
  exact ⟨l, hl.symm, nodup_tags_of_span htags, (length_tokens_of_layout hl.symm).symm, htags⟩

theorem tokens_of_braceFree {source : String} (h : BraceFree source.toList) : tokens source = [] := by
  have hl : source.toList = Layout.write (α := Unit) (Cell.ofText ⟨source.toList, h⟩) := by
    rw [Layout.write, writeCells_ofText]
  rw [← List.length_eq_zero_iff, length_tokens_of_layout hl, Layout.heads, Layout.nodes,
    filterMap_token?_ofText, List.flatMap_nil, List.length_nil]

theorem mentions_of_layout {source name : String} {l : Layout α} (h : source.toList = l.write) :
    mentions source name = true ↔ ∃ h ∈ l.heads, h.opening.name = name := by
  rw [mentions_iff, tokens_of_layout h, ← map_fst_marks l 0]
  simp only [List.mem_map]
  constructor
  · rintro ⟨t, ⟨m, hm, rfl⟩, rfl⟩
    exact ⟨m.1, ⟨m, hm, rfl⟩, rfl⟩
  · rintro ⟨h, ⟨m, hm, rfl⟩, rfl⟩
    exact ⟨_, ⟨m, hm, rfl⟩, rfl⟩

/-- The head of a name that comes first in a token: one in its body before its own. -/
def Node.firstNamed (name : String) (n : Node α) : Option (Head α) :=
  match n.leaves.find? (·.opening.name == name) with
  | some leaf => some leaf.head
  | none => if n.opening.name == name then some n.head else none

/-- The head of a name that comes first in a layout. -/
def Layout.firstNamed (name : String) (l : Layout α) : Option (Head α) :=
  l.nodes.findSome? (Node.firstNamed name)

theorem mem_of_firstNamed {name : String} {l : Layout α} {h : Head α}
    (hfirst : l.firstNamed name = some h) : h ∈ l.heads ∧ h.opening.name = name := by
  obtain ⟨n, hn, hnode⟩ := List.exists_of_findSome?_eq_some hfirst
  rw [Node.firstNamed] at hnode
  split at hnode
  · rename_i leaf hleaf
    cases hnode
    have hname := List.find?_some hleaf
    exact ⟨leaf_mem_heads hn (List.mem_of_find?_eq_some hleaf), by simpa using hname⟩
  · split at hnode
    · rename_i hname
      cases hnode
      exact ⟨head_mem_heads hn, by simpa using hname⟩
    · exact absurd hnode (by simp)

theorem firstNamed_eq_none {name : String} {l : Layout α} (hfirst : l.firstNamed name = none) :
    ∀ h ∈ l.heads, h.opening.name ≠ name := by
  rw [Layout.firstNamed, List.findSome?_eq_none_iff] at hfirst
  intro h hmem
  obtain ⟨n, hn, hmem⟩ := List.mem_flatMap.1 hmem
  have hnode := hfirst n hn
  rw [Node.firstNamed] at hnode
  split at hnode
  · exact absurd hnode (by simp)
  · rename_i hleaves
    split at hnode
    · exact absurd hnode (by simp)
    · rename_i hname
      rcases List.mem_cons.1 hmem with rfl | hmem
      · simpa [Node.head] using hname
      · obtain ⟨leaf, hleaf, rfl⟩ := List.mem_map.1 hmem
        simpa [Leaf.head] using List.find?_eq_none.1 hleaves leaf hleaf

/-- Text is never found by name. -/
theorem findSome?_filter_isToken (name : String) (ps : List Piece) :
    (ps.filter Piece.isToken).findSome? (Piece.firstNamed name) =
      ps.findSome? (Piece.firstNamed name) := by
  induction ps with
  | nil => rfl
  | cons piece ps ih =>
    cases piece with
    | text span =>
      rw [List.filter_cons_of_neg (by simp [Piece.isToken]), ih, List.findSome?_cons]
      rfl
    | token outer nested =>
      rw [List.filter_cons_of_pos rfl, List.findSome?_cons, List.findSome?_cons, ih]

/-- The token of a name that comes first in a token, without where it stands. -/
theorem firstNamed_eq_find? (name : String) (n : Node α) (pos : Nat) :
    n.firstNamed name =
      match (n.nested pos).find? (·.1.opening.name == name) with
      | some m => some m.1
      | none => if n.opening.name == name then some n.head else none := by
  have hfind : (n.leaves.find? (·.opening.name == name)).map Leaf.head =
      ((n.nested pos).find? (·.1.opening.name == name)).map Prod.fst := by
    have hleaves := List.find?_map (f := Leaf.head (α := α)) (p := (·.opening.name == name))
      (l := n.leaves)
    have hnested := List.find?_map (f := Prod.fst (α := Head α) (β := Nat))
      (p := (·.opening.name == name)) (l := n.nested pos)
    rw [← map_fst_nested n pos, hnested] at hleaves
    exact hleaves.symm
  rw [Node.firstNamed]
  cases hl : n.leaves.find? (·.opening.name == name) with
  | some leaf =>
    rw [hl] at hfind
    obtain ⟨m, hm, hhead⟩ := Option.map_eq_some_iff.1 hfind.symm
    simp only [hm, hhead]
  | none =>
    rw [hl] at hfind
    rw [Option.map_eq_none_iff.1 hfind.symm]

/-- A token that stands somewhere is found by name as without where it stands. -/
private theorem firstNamed_piece (name : String) (n : Node α) (pos : Nat) :
    match n.firstNamed name with
    | none => Piece.firstNamed name (n.piece pos) = none
    | some h => ∃ p nested, (h, p) ∈ (n.head, pos) :: n.nested pos ∧
        Piece.firstNamed name (n.piece pos) = some (h.token p, nested) := by
  have htokens := List.find?_map (f := fun m : Head α × Nat => m.1.token m.2)
    (p := (·.name == name)) (l := n.nested pos)
  rw [firstNamed_eq_find? name n pos, Node.piece, Piece.firstNamed]
  -- A token in the body comes before the one it stands in.
  cases hm : (n.nested pos).find? (·.1.opening.name == name) with
  | some m =>
    have htoken : ((n.nested pos).map fun m => m.1.token m.2).find? (·.name == name) =
        some (m.1.token m.2) := htokens.trans (by rw [Function.comp_def]; simp [hm])
    refine ⟨m.2, [], List.mem_cons_of_mem _ (List.mem_of_find?_eq_some hm), ?_⟩
    rw [htoken]
  | none =>
    have htoken : ((n.nested pos).map fun m => m.1.token m.2).find? (·.name == name) = none :=
      htokens.trans (by rw [Function.comp_def]; simp [hm])
    rw [htoken]
    by_cases hname : n.opening.name == name
    · simp only [hname, ↓reduceIte]
      exact ⟨pos, _, List.mem_cons_self, if_pos hname⟩
    · simp only [hname]
      exact if_neg hname

/-- Tokens that stand somewhere are found by name as without where they stand. -/
private theorem findSome?_map_piece (name : String) (ns : List (Node α × Nat)) :
    match (ns.map Prod.fst).findSome? (Node.firstNamed name) with
    | none => (ns.map fun (n, p) => n.piece p).findSome? (Piece.firstNamed name) = none
    | some h => ∃ pos nested, (h, pos) ∈ (ns.flatMap fun (n, p) => (n.head, p) :: n.nested p) ∧
        (ns.map fun (n, p) => n.piece p).findSome? (Piece.firstNamed name) =
          some (h.token pos, nested) := by
  induction ns with
  | nil => rfl
  | cons m ns ih =>
    obtain ⟨n, p⟩ := m
    have hnode := firstNamed_piece name n p
    rw [List.map_cons, List.findSome?_cons, List.map_cons, List.findSome?_cons]
    cases hn : n.firstNamed name with
    | some h =>
      rw [hn] at hnode
      obtain ⟨pos, nested, hmem, hpiece⟩ := hnode
      refine ⟨pos, nested, ?_, by rw [hpiece]⟩
      rw [List.flatMap_cons]
      exact List.mem_append_left _ hmem
    | none =>
      rw [hn] at hnode
      cases hrest : (ns.map Prod.fst).findSome? (Node.firstNamed name) with
      | some h =>
        rw [hrest] at ih
        obtain ⟨pos, nested, hmem, hpieces⟩ := ih
        refine ⟨pos, nested, ?_, ?_⟩
        · rw [List.flatMap_cons]
          exact List.mem_append_right _ hmem
        · rw [hnode]
          exact hpieces
      | none =>
        rw [hrest] at ih
        simp only [hnode]
        exact ih

/-- The token of a name that is evaluated next in a text is the one that comes first in its layout.
-/
theorem firstNamed_write (name : String) {source : String} {l : Layout α}
    (h : source.toList = l.write) :
    match l.firstNamed name with
    | none => firstNamed source name = none
    | some head => ∃ pos nested, (head, pos) ∈ l.marks 0 ∧
        firstNamed source name = some (head.token pos, nested) := by
  rw [firstNamed, pieces, h, ← findSome?_filter_isToken, filter_scanPieces_write, Layout.firstNamed,
    Layout.nodes, ← map_fst_place Node.write 0]
  exact findSome?_map_piece name (place Node.write 0 l)

end Stencil.Template
