import Stencil.Proofs.Template.Cover

/-!
# Taking Templates Apart

What is written from a layout is of the grammar, so scanning it gives the tokens of the layout back,
each where it stands.  The other way round, the grammar says where the tokens of a template stand, and
from that a layout is built for every template whose braces are all accounted for by its tokens.  So
what is proved about layouts holds for such templates.

Main statements: `filter_scanPieces_write` (layouts are read back), `exists_layout` (braces only around
tokens and the tokens in their bodies) and `exists_leaves` (no tokens in bodies).
-/

namespace Stencil.Template

open Stencil.Text

variable {α : Type}

/-! ## §1 Tokens without tokens in their bodies -/

/-- A written header is read back, so it is an opening. -/
def WrittenHeader.opening {front : List Char} {name : String} {args : Arguments}
    (h : WrittenHeader front name args) : Opening :=
  ⟨name, args, front, h.scan⟩

/-- A body in which no pair of braces stands is read back. -/
def PlainBody.ofNoPair {text : List Char} (h : NoPair (text ++ ['}'])) : PlainBody :=
  ⟨text, fun _ => scanPlainBody_eq_some_iff.2 ⟨rfl, h⟩⟩

theorem WrittenInner.exists_leaf {pos : Nat} {w : List Char} {t : Token} (tag : α)
    (h : WrittenInner pos w t) :
    ∃ leaf : Leaf α, leaf.tag = tag ∧ leaf.write = w ∧ leaf.head.token pos = t := by
  cases h with
  | closed header => exact ⟨⟨tag, header.opening, none⟩, rfl, rfl, rfl⟩
  | body header plain =>
    exact ⟨⟨tag, header.opening, some (.ofNoPair plain.1)⟩, rfl, rfl, rfl⟩

/-- A token in whose body no token stands holds no others. -/
theorem WrittenToken.inner {pos : Nat} {w : List Char} {t : Token} (h : WrittenToken pos w t []) :
    WrittenInner pos w t := by
  cases h with
  | closed header => exact .closed header
  | body header inner =>
    cases inner with
    | last hpair => exact .body header ⟨hpair, rfl⟩

/-! ## §2 Layouts as they are read -/

theorem Opening.written (o : Opening) : WrittenHeader o.chars o.name o.args := by
  obtain ⟨front, hcs, hfront⟩ := scanHeader_eq_some_iff.1 (o.reads .closed [])
  obtain rfl : o.chars = front := by simpa using hcs
  exact hfront

theorem PlainBody.noPair (b : PlainBody) : NoPair (b.chars ++ ['}']) :=
  (scanPlainBody_eq_some_iff.1 (b.reads [])).2

theorem Leaf.written (t : Leaf α) (pos : Nat) : WrittenInner pos t.write (t.head.token pos) := by
  obtain ⟨tag, o, body⟩ := t
  cases body with
  | none => exact .closed o.written
  | some b => exact .body o.written ⟨b.noPair, rfl⟩

/-- Places are a body, with the tokens in it. -/
theorem writtenBody_writeCells (cells : List (Cell (Leaf α))) (pos : Nat) :
    WrittenBody pos (writeCells Leaf.write cells)
      ((place Leaf.write pos cells).map fun (t, p) => t.head.token p) := by
  induction cells generalizing pos with
  | nil => exact .last (noPair_singleton '}')
  | cons cell cells ih =>
    cases cell with
    | char c hc =>
      obtain ⟨hopen, hclose⟩ := ne_of_isBrace hc
      refine @WrittenBody.cons _ _ _ [] _ ?_ ?_ (ih (pos + c.utf8Size))
      · rintro ⟨tail, heq⟩
        exact hopen (List.cons.inj heq).1
      · rintro ⟨tail, heq⟩
        exact hclose (List.cons.inj heq).1
    | token t =>
      exact @WrittenBody.token pos [] _ _ _ _ (noPair_singleton '{') (t.written pos) (ih _)

theorem Node.written (n : Node α) (pos : Nat) :
    WrittenToken pos n.write (n.head.token pos) ((n.nested pos).map fun (h, p) => h.token p) := by
  obtain ⟨tag, o, interior⟩ := n
  cases interior with
  | closed => exact .closed o.written
  | plain b => exact .body o.written (.last b.noPair)
  | cells b =>
    rw [Node.nested, List.map_map]
    exact .body o.written (writtenBody_writeCells b (o.inside pos))

theorem scanToken_char {c : Char} (hc : isBrace c = false) (pos : Nat) (rest : List Char) :
    scanToken pos (c :: rest) = none := by
  have hopen := (ne_of_isBrace hc).1
  unfold scanToken
  split
  · rename_i heq
    exact absurd (List.cons.inj heq).1 hopen
  · rfl

theorem filter_textPiece (start stop : Nat) : (textPiece start stop).filter Piece.isToken = [] := by
  unfold textPiece
  split <;> rfl

/-- The tokens of a layout are read back, each where it stands. -/
theorem filter_scanPieces_write (l : Layout α) (start pos : Nat) :
    (scanPieces start pos l.write).filter Piece.isToken =
      (place Node.write pos l).map fun (n, p) => n.piece p := by
  induction l generalizing start pos with
  | nil =>
    rw [Layout.write, writeCells_nil, scanPieces, filter_textPiece]
    rfl
  | cons cell l ih =>
    rw [Layout.write] at ih ⊢
    cases cell with
    | char c hc =>
      rw [writeCells_char, scanPieces_of_none (scanToken_char hc pos _), ih]
      rfl
    | token n =>
      have hread : scanToken pos (n.write ++ writeCells Node.write l) = some _ :=
        scanToken_eq_some_iff.2 ⟨n.write, rfl, n.written pos⟩
      rw [writeCells_token, scanPieces_of_scanToken hread, List.filter_append, filter_textPiece,
        List.nil_append, List.filter_cons_of_pos rfl, ih]
      rfl

/-- What is read off tokens only is read off the pieces that are tokens. -/
theorem flatMap_filter_isToken {β : Type} {f : Piece → List β} (hf : ∀ span, f (.text span) = [])
    (ps : List Piece) : (ps.filter Piece.isToken).flatMap f = ps.flatMap f := by
  induction ps with
  | nil => rfl
  | cons piece ps ih =>
    cases piece with
    | text span =>
      rw [List.filter_cons_of_neg (by simp [Piece.isToken]), ih, List.flatMap_cons, hf,
        List.nil_append]
    | token outer nested => rw [List.filter_cons_of_pos rfl, List.flatMap_cons, ih]; rfl

theorem flatMap_tokens_scanPieces_write (l : Layout α) (start pos : Nat) :
    (scanPieces start pos l.write).flatMap Piece.tokens =
      (l.marks pos).map fun (h, p) => h.token p := by
  rw [← flatMap_filter_isToken fun _ => rfl, filter_scanPieces_write, List.flatMap_map,
    Layout.marks, List.map_flatMap]
  rfl

/-! ## §3 Where characters of a class stand -/

/-- The byte positions of the characters of a class in a text that starts at a position. -/
def positions (q : Char → Bool) : Nat → List Char → List Nat
  | _, [] => []
  | pos, c :: cs =>
    if q c then pos :: positions q (pos + c.utf8Size) cs else positions q (pos + c.utf8Size) cs

theorem mem_positions_cons {q : Char → Bool} {pos p : Nat} {c : Char} {cs : List Char} :
    p ∈ positions q pos (c :: cs) ↔
      (q c = true ∧ p = pos) ∨ p ∈ positions q (pos + c.utf8Size) cs := by
  rw [positions]
  split <;> simp_all

theorem positions_append (q : Char → Bool) (pos : Nat) (cs ds : List Char) :
    positions q pos (cs ++ ds) = positions q pos cs ++ positions q (pos + byteLength cs) ds := by
  induction cs generalizing pos with
  | nil => rfl
  | cons c cs ih =>
    rw [List.cons_append, positions, positions, ih, byteLength_cons, ← Nat.add_assoc]
    split <;> rfl

theorem bounds_of_mem_positions {q : Char → Bool} {pos p : Nat} {cs : List Char}
    (h : p ∈ positions q pos cs) : pos ≤ p ∧ p < pos + byteLength cs := by
  induction cs generalizing pos with
  | nil => simp [positions] at h
  | cons c cs ih =>
    have hsize := c.utf8Size_pos
    rw [byteLength_cons]
    rcases mem_positions_cons.1 h with ⟨-, rfl⟩ | h
    · omega
    · have := ih h
      omega

/-- A text has none of the characters of a class if those stand behind it. -/
theorem forall_of_positions {q : Char → Bool} {pos : Nat} {text rest : List Char}
    (h : ∀ p ∈ positions q pos (text ++ rest), pos + byteLength text ≤ p) :
    ∀ c ∈ text, q c = false := by
  induction text generalizing pos with
  | nil => simp
  | cons c text ih =>
    rw [byteLength_cons, ← Nat.add_assoc] at h
    refine List.forall_mem_cons.2 ⟨?_, ih fun p hp => h p (mem_positions_cons.2 (.inr hp))⟩
    cases hc : q c with
    | false => rfl
    | true =>
      have hle := h pos (mem_positions_cons.2 (.inl ⟨hc, rfl⟩))
      have hsize := c.utf8Size_pos
      omega

/-! ## §4 Characters that tokens account for -/

/-- Whether a byte position is within a token. -/
def Token.Covers (t : Token) (p : Nat) : Prop := t.span.start ≤ p ∧ p < t.span.stop

/-- Whether a byte position is one of the opening or closing braces of a token. -/
def Token.Frames (t : Token) (p : Nat) : Prop :=
  t.span.start ≤ p ∧ p < t.span.stop ∧ (p < t.span.start + 2 ∨ t.span.stop ≤ p + 2)

/-- Whether every character of a class in a text that starts at a position stands where one of some
tokens has it: anywhere within, or in its braces. -/
def Accounted (has : Token → Nat → Prop) (q : Char → Bool) (pos : Nat) (cs : List Char)
    (ts : List Token) : Prop :=
  ∀ p ∈ positions q pos cs, ∃ t ∈ ts, has t p

variable {has : Token → Nat → Prop} {q : Char → Bool} {pos : Nat}

theorem Accounted.forall {text : List Char} (h : Accounted has q pos text []) :
    ∀ c ∈ text, q c = false := by
  refine @forall_of_positions q pos text [] fun p hp => ?_
  rw [List.append_nil] at hp
  obtain ⟨t, ht, -⟩ := h p hp
  exact absurd ht List.not_mem_nil

/-- Text, a first token and a rest, accounted for by the tokens in the first one and those behind it:
the text has no character of the class, and each of the others is where the tokens of its part are. -/
theorem Accounted.parts {text w rest : List Char} {first later : List Token}
    (h : Accounted has q pos (text ++ (w ++ rest)) (first ++ later))
    (hhas : ∀ t p, has t p → t.Covers p)
    (hfirst : ∀ t ∈ first, pos + byteLength text ≤ t.span.start ∧
      t.span.stop ≤ pos + byteLength text + byteLength w)
    (hlater : ∀ t ∈ later, pos + byteLength text + byteLength w ≤ t.span.start) :
    (∀ c ∈ text, q c = false) ∧ Accounted has q (pos + byteLength text) w first ∧
      Accounted has q (pos + byteLength text + byteLength w) rest later := by
  refine ⟨@forall_of_positions q pos text (w ++ rest) fun p hp => ?_, fun p hp => ?_, fun p hp => ?_⟩
  · obtain ⟨t, ht, hat⟩ := h p hp
    have hle := (hhas t p hat).1
    rcases List.mem_append.1 ht with ht | ht
    · exact (hfirst t ht).1.trans hle
    · have := hlater t ht
      omega
  · have hbounds := bounds_of_mem_positions hp
    obtain ⟨t, ht, hat⟩ := h p (by simp [positions_append, hp])
    rcases List.mem_append.1 ht with ht | ht
    · exact ⟨t, ht, hat⟩
    · have := hlater t ht
      have := (hhas t p hat).1
      omega
  · have hbounds := bounds_of_mem_positions hp
    obtain ⟨t, ht, hat⟩ := h p (by simp [positions_append, hp])
    rcases List.mem_append.1 ht with ht | ht
    · have := hfirst t ht
      have := (hhas t p hat).2
      omega
    · exact ⟨t, ht, hat⟩

/-! ## §5 Bodies and tokens -/

/-- What holds of the tokens of places that start with text and a token. -/
theorem forall_mem_place_token {τ : Type} {w : τ → List Char} {text : PlainText} {u : τ}
    {cells : List (Cell τ)} {P : τ → Nat → Prop} :
    (∀ t p, (t, p) ∈ place w pos (Cell.ofText text ++ .token u :: cells) → P t p) ↔
      P u (pos + byteLength text.1) ∧
        ∀ t p, (t, p) ∈ place w (pos + byteLength text.1 + byteLength (w u)) cells → P t p := by
  simp only [place_ofText_append, place, List.mem_cons, Prod.mk.injEq, or_imp, forall_and, and_imp]
  exact and_congr_left' ⟨fun h => h u _ rfl rfl, by rintro h t p rfl rfl; exact h⟩

/-- A body whose braces all stand in tokens is made of places. -/
theorem WrittenBody.exists_cells {text : List Char} {nested : List Token}
    (h : WrittenBody pos text nested) (f : Token → α)
    (hbraces : Accounted Token.Covers isBrace pos text nested) :
    ∃ cells : List (Cell (Leaf α)), writeCells Leaf.write cells = text ∧
      ∀ t p, (t, p) ∈ place Leaf.write pos cells → t.tag = f (t.head.token p) := by
  induction h with
  | @last pos text _ =>
    refine ⟨Cell.ofText ⟨text, hbraces.forall⟩, writeCells_ofText _ _, fun t p ht => ?_⟩
    rw [place_ofText] at ht
    exact absurd ht List.not_mem_nil
  | @token pos text w rest t nested _ first others ih =>
    -- A brace before the first token would be in a token that starts behind it.
    rw [← List.singleton_append] at hbraces
    obtain ⟨hplain, -, hrest⟩ := hbraces.parts (fun _ _ h => h)
      (by simp [first.span_eq]) fun u hu => (others.flat u hu).bounds.1
    obtain ⟨cells, rfl, htags⟩ := ih hrest
    obtain ⟨leaf, htag, rfl, rfl⟩ := first.exists_leaf (f t)
    exact ⟨Cell.ofText ⟨text, hplain⟩ ++ .token leaf :: cells, by simp,
      forall_mem_place_token.2 ⟨htag, htags⟩⟩

/-- A token is a node, if all braces in it are those of itself and the tokens in its body. -/
theorem WrittenToken.exists_node {w : List Char} {t : Token} {nested : List Token}
    (h : WrittenToken pos w t nested) (f : Token → α)
    (hbraces : Accounted Token.Frames isBrace pos w (t :: nested)) :
    ∃ n : Node α, n.write = w ∧ n.tag = f (n.head.token pos) ∧
      ∀ m ∈ n.nested pos, m.1.tag = f (m.1.token m.2) := by
  cases h with
  | @closed front name args header =>
    exact ⟨⟨f (tokenAt pos front name args none), header.opening, .closed⟩, rfl, rfl,
      by simp [Node.nested]⟩
  | @body front text name args nested header hbody =>
    -- A brace of the body is none of the outer token's own, so it is in a token of the body.
    have hinner : Accounted Token.Covers isBrace (bodyStart pos front) text nested := by
      intro p hp
      have hbounds := bounds_of_mem_positions hp
      have hstop := stop_braced_some pos front text
      have hopen : pos + 2 ≤ bodyStart pos front := by
        rw [bodyStart, byteLength_cons, byteLength_cons]
        change pos + 2 ≤ pos + (1 + (1 + _))
        omega
      have hmem : p ∈ positions isBrace pos (braced front (some text)) := by
        rw [braced_some, positions_append, positions_append]
        exact List.mem_append_right _ (List.mem_append_left _ hp)
      obtain ⟨t', ht', hfirst, hlast, hframe⟩ := hbraces p hmem
      rcases List.mem_cons.1 ht' with rfl | ht'
      · simp only [tokenAt] at hframe
        omega
      · exact ⟨t', ht', hfirst, hlast⟩
    obtain ⟨cells, rfl, htags⟩ := hbody.exists_cells f hinner
    refine ⟨⟨f (tokenAt pos front name args (some _)), header.opening, .cells cells⟩, rfl, rfl, ?_⟩
    rintro ⟨h, p⟩ hm
    obtain ⟨⟨leaf, q⟩, hmem, heq⟩ := List.mem_map.1 hm
    obtain ⟨rfl, rfl⟩ := Prod.mk.inj heq
    exact htags leaf q hmem

/-! ## §6 Templates -/

theorem flatMap_tokens_textPiece (start stop : Nat) :
    (textPiece start stop).flatMap Piece.tokens = [] := by
  rw [← flatMap_filter_isToken fun _ => rfl, filter_textPiece, List.flatMap_nil]

/-- A token behind text and in front of pieces adds itself and the tokens in its body. -/
theorem flatMap_tokens_cons (start stop : Nat) (t : Token) (nested : List Token) (ps : List Piece) :
    (textPiece start stop ++ .token t nested :: ps).flatMap Piece.tokens =
      t :: nested ++ ps.flatMap Piece.tokens := by
  rw [List.flatMap_append, flatMap_tokens_textPiece]
  rfl

/-- A text is a layout, if all its braces are those of its tokens. -/
theorem Cut.exists_layout {cs : List Char} {ps : List Piece} (h : Cut pos cs ps) (f : Token → α)
    (hbraces : Accounted Token.Frames isBrace pos cs (ps.flatMap Piece.tokens)) :
    ∃ l : Layout α, l.write = cs ∧ ∀ m ∈ l.marks pos, m.1.tag = f (m.1.token m.2) := by
  induction h with
  | @last pos text _ =>
    rw [flatMap_tokens_textPiece] at hbraces
    refine ⟨Cell.ofText ⟨text, hbraces.forall⟩, writeCells_ofText _ _, fun m hm => ?_⟩
    rw [Layout.marks, place_ofText] at hm
    exact absurd hm List.not_mem_nil
  | @token pos text w rest t nested ps _ first others ih =>
    rw [flatMap_tokens_cons] at hbraces
    -- The token and those in its body frame the braces in it, and no others: those lie outside.
    have hwithin : ∀ u ∈ t :: nested, pos + byteLength text ≤ u.span.start ∧
        u.span.stop ≤ pos + byteLength text + byteLength w := by
      refine List.forall_mem_cons.2 ⟨by simp [first.span_eq], fun u hu => ?_⟩
      obtain ⟨hlt, hat⟩ := first.flat u hu
      exact ⟨hlt.le, hat.bounds.2.2.2⟩
    obtain ⟨hplain, hnode, hrest⟩ :=
      hbraces.parts (fun _ _ h => ⟨h.1, h.2.1⟩) hwithin fun u hu => others.le_start hu
    obtain ⟨l, rfl, htags⟩ := ih hrest
    obtain ⟨n, rfl, htag, hnested⟩ := first.exists_node f hnode
    refine ⟨Cell.ofText ⟨text, hplain⟩ ++ .token n :: l, by simp [Layout.write], fun m hm => ?_⟩
    rw [Layout.marks, place_ofText_append, place, List.flatMap_cons] at hm
    rcases List.mem_append.1 hm with hm | hm
    · rcases List.mem_cons.1 hm with rfl | hm
      · exact htag
      · exact hnested m hm
    · exact htags m hm

/-- A text is made of leaves and characters outside a class, if no token has tokens in its body and the
characters of the class, among them the braces, stand in tokens. -/
theorem Cut.exists_leaves {cs : List Char} {ps : List Piece} (h : Cut pos cs ps) (f : Token → α)
    (hbrace : ∀ c, isBrace c = true → q c = true) (hflat : ∀ piece ∈ ps, piece.tokens.length ≤ 1)
    (hin : Accounted Token.Covers q pos cs (ps.flatMap Piece.tokens)) :
    ∃ cells : List (Cell (Leaf α)), writeCells Leaf.write cells = cs ∧
      (∀ c hc, .char c hc ∈ cells → q c = false) ∧
      ∀ t p, (t, p) ∈ place Leaf.write pos cells → t.tag = f (t.head.token p) := by
  have hplain {text : List Char} (hclass : ∀ c ∈ text, q c = false) : BraceFree text := by
    intro c hc
    cases hb : isBrace c with
    | false => rfl
    | true => exact absurd (hbrace c hb) (by simp [hclass c hc])
  induction h with
  | @last pos text _ =>
    rw [flatMap_tokens_textPiece] at hin
    have hclass := hin.forall
    refine ⟨Cell.ofText ⟨text, hplain hclass⟩, writeCells_ofText _ _, fun c hc hmem => ?_,
      fun t p ht => ?_⟩
    · exact hclass c (mem_of_char_mem_ofText hmem)
    · rw [place_ofText] at ht
      exact absurd ht List.not_mem_nil
  | @token pos text w rest t nested ps _ first others ih =>
    obtain rfl : nested = [] := by
      have hpiece := hflat (.token t nested) (by simp)
      rw [Piece.tokens, List.length_cons] at hpiece
      exact List.length_eq_zero_iff.1 (by omega)
    rw [flatMap_tokens_cons] at hin
    -- The text before the token has nothing of the class, and what is behind it is taken apart alike.
    obtain ⟨hclass, -, hrest⟩ := hin.parts (fun _ _ h => h) (by simp [first.span_eq])
      fun u hu => others.le_start hu
    obtain ⟨cells, rfl, hchars, htags⟩ := ih (fun piece hp => hflat piece (by simp [hp])) hrest
    obtain ⟨leaf, htag, rfl, rfl⟩ := first.inner.exists_leaf (f t)
    refine ⟨Cell.ofText ⟨text, hplain hclass⟩ ++ .token leaf :: cells, by simp,
      fun c hc hmem => ?_, forall_mem_place_token.2 ⟨htag, htags⟩⟩
    rcases List.mem_append.1 hmem with hmem | hmem
    · exact hclass c (mem_of_char_mem_ofText hmem)
    · exact hchars c hc (by simpa using hmem)

/-- Whether every brace of a template is one of the opening or closing braces of a token. -/
def BraceClean (template : String) : Prop :=
  ∀ p ∈ positions isBrace 0 template.toList, ∃ t ∈ tokens template, t.Frames p

/-- Whether the characters of a class stand in tokens only. -/
def OnlyInTokens (q : Char → Bool) (template : String) : Prop :=
  ∀ p ∈ positions q 0 template.toList,
    ∃ t ∈ tokens template, t.span.start ≤ p ∧ p < t.span.stop

/-- Whether no token has tokens in its body. -/
def Unnested (template : String) : Prop := ∀ piece ∈ pieces template, piece.tokens.length ≤ 1

instance (t : Token) (p : Nat) : Decidable (t.Frames p) :=
  inferInstanceAs (Decidable (_ ∧ _))

instance (template : String) : Decidable (BraceClean template) :=
  inferInstanceAs (Decidable (∀ p ∈ positions isBrace 0 template.toList, _))

instance (q : Char → Bool) (template : String) : Decidable (OnlyInTokens q template) :=
  inferInstanceAs (Decidable (∀ p ∈ positions q 0 template.toList, _))

instance (template : String) : Decidable (Unnested template) :=
  inferInstanceAs (Decidable (∀ piece ∈ pieces template, _))

/-- A template whose braces are those of its tokens is a layout, whose tags are made from the tokens
as they stand in it. -/
theorem exists_layout {template : String} (f : Token → α) (h : BraceClean template) :
    ∃ l : Layout α, l.write = template.toList ∧ ∀ m ∈ l.marks 0, m.1.tag = f (m.1.token m.2) :=
  (cut_pieces template).exists_layout f h

/-- A template without tokens in bodies is made of leaves and characters outside a class, if the
characters of the class, among them the braces, stand in tokens. -/
theorem exists_leaves {template : String} (f : Token → α)
    (hbrace : ∀ c, isBrace c = true → q c = true) (hflat : Unnested template)
    (hin : OnlyInTokens q template) :
    ∃ cells : List (Cell (Leaf α)), writeCells Leaf.write cells = template.toList ∧
      (∀ c hc, .char c hc ∈ cells → q c = false) ∧
      ∀ t p, (t, p) ∈ place Leaf.write 0 cells → t.tag = f (t.head.token p) :=
  (cut_pieces template).exists_leaves f hbrace hflat hin

end Stencil.Template
