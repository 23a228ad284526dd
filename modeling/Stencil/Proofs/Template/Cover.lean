import Mathlib.Data.List.Chain
import Mathlib.Data.List.Forall2
import Stencil.Proofs.Template.Cuts

/-!
# The Pieces of a Template Cover It

Cutting a template loses nothing: its pieces follow each other from the first byte to the last, and
every token stands where its span says, with its body between its colon and its closing braces.  All
this is read off the relation `Cut`, by induction on the pieces.

Main statement: `pieces_cover`.
-/

namespace Stencil.Template

open Stencil.Text

/-! ## §1 Stretches of a text -/

/-- A text stands at a span of another, whose first byte has the position `origin`.  Both ends of the
span then lie between characters. -/
def TextAt (origin : Nat) (cs : List Char) (s : Span) (w : List Char) : Prop :=
  ∃ before after, cs = before ++ (w ++ after) ∧
    s = ⟨origin + byteLength before, origin + byteLength before + byteLength w⟩

theorem TextAt.append_left {origin : Nat} {cs w : List Char} {s : Span} (a : List Char)
    (h : TextAt (origin + byteLength a) cs s w) : TextAt origin (a ++ cs) s w := by
  obtain ⟨before, after, rfl, rfl⟩ := h
  exact ⟨a ++ before, after, by simp, by simp [Nat.add_assoc]⟩

/-- Spans from a position to another: none is empty, and each starts where the one before it stops. -/
inductive Tiles : Nat → List Span → Nat → Prop
  /-- No span. -/
  | nil (pos : Nat) : Tiles pos [] pos
  /-- A span and those behind it. -/
  | cons {s : Span} {spans : List Span} {stop : Nat} (nonempty : s.start < s.stop)
      (others : Tiles s.stop spans stop) : Tiles s.start (s :: spans) stop

theorem Tiles.append {start mid stop : Nat} {spans spans' : List Span} (h : Tiles start spans mid)
    (h' : Tiles mid spans' stop) : Tiles start (spans ++ spans') stop := by
  induction h with
  | nil _ => exact h'
  | cons hne _ ih => exact .cons hne (ih h')

theorem Tiles.bounds {start stop : Nat} {spans : List Span} (h : Tiles start spans stop) :
    start ≤ stop ∧ ∀ s ∈ spans, start ≤ s.start ∧ s.stop ≤ stop := by
  induction h with
  | nil _ => exact ⟨Nat.le_refl _, by simp⟩
  | @cons s spans stop hne _ ih =>
    obtain ⟨hle, hall⟩ := ih
    refine ⟨by omega, fun u hu => ?_⟩
    rcases List.mem_cons.1 hu with rfl | hu
    · exact ⟨Nat.le_refl _, hle⟩
    · have := hall u hu
      omega

theorem Tiles.nonempty {start stop : Nat} {spans : List Span} (h : Tiles start spans stop) :
    ∀ s ∈ spans, s.start < s.stop := by
  induction h with
  | nil _ => simp
  | cons hne _ ih => exact List.forall_mem_cons.2 ⟨hne, ih⟩

theorem Tiles.pairwise {start stop : Nat} {spans : List Span} (h : Tiles start spans stop) :
    spans.Pairwise fun s u => s.stop ≤ u.start := by
  induction h with
  | nil _ => exact .nil
  | cons _ hothers ih => exact .cons (fun u hu => (hothers.bounds.2 u hu).1) ih

/-! ## §2 Pieces side by side -/

theorem tiles_textPiece {start stop : Nat} (h : start ≤ stop) :
    Tiles start ((textPiece start stop).map Piece.span) stop := by
  unfold textPiece
  split
  · rename_i hlt
    exact @Tiles.cons ⟨start, stop⟩ _ _ hlt (.nil stop)
  · obtain rfl : start = stop := by omega
    exact .nil start

theorem Cut.tiles {pos : Nat} {cs : List Char} {ps : List Piece} (h : Cut pos cs ps) :
    Tiles pos (ps.map Piece.span) (pos + byteLength cs) := by
  induction h with
  | last _ => exact tiles_textPiece (Nat.le_add_right _ _)
  | @token pos text w rest t nested ps _ first _ ih =>
    have hpos := first.byteLength_pos
    have hspan : t.span = ⟨pos + byteLength text, pos + byteLength text + byteLength w⟩ :=
      first.span_eq
    rw [List.map_append, List.map_cons, byteLength_append, byteLength_append, ← Nat.add_assoc,
      ← Nat.add_assoc]
    refine (tiles_textPiece (Nat.le_add_right _ _)).append ?_
    rw [Piece.span, hspan]
    exact @Tiles.cons ⟨_, _⟩ _ _ (by dsimp only; omega) ih

/-- The text between two tokens stands at its piece, if there is one. -/
theorem exists_texts_textPiece (pos : Nat) (text rest : List Char) :
    ∃ texts, List.Forall₂ (fun p w => TextAt pos (text ++ rest) p.span w)
      (textPiece pos (pos + byteLength text)) texts ∧ texts.flatten = text := by
  unfold textPiece
  split
  · exact ⟨[text], .cons ⟨[], rest, rfl, rfl⟩ .nil, by simp⟩
  · obtain rfl : text = [] := byteLength_eq_zero_iff.1 (by omega)
    exact ⟨[], .nil, rfl⟩

/-- The texts at the pieces of a cut, one behind the other, are the whole. -/
theorem Cut.texts {pos : Nat} {cs : List Char} {ps : List Piece} (h : Cut pos cs ps) :
    ∃ texts, List.Forall₂ (fun p w => TextAt pos cs p.span w) ps texts ∧ texts.flatten = cs := by
  induction h with
  | @last pos text _ =>
    have htexts := exists_texts_textPiece pos text []
    rwa [List.append_nil] at htexts
  | @token pos text w rest t nested ps _ first _ ih =>
    obtain ⟨before, hbefore, hflatten⟩ := exists_texts_textPiece pos text (w ++ rest)
    obtain ⟨texts, htexts, rfl⟩ := ih
    refine ⟨before ++ w :: texts, List.rel_append hbefore (.cons ?_ ?_), ?_⟩
    · exact ⟨text, _, rfl, first.span_eq⟩
    · refine htexts.imp fun p v hv => ?_
      exact TextAt.append_left text (TextAt.append_left w hv)
    · rw [List.flatten_append, List.flatten_cons, hflatten]

theorem Cut.alternates {pos : Nat} {cs : List Char} {ps : List Piece} (h : Cut pos cs ps) :
    ps.IsChain fun p q => p.isToken ∨ q.isToken := by
  have htext (start stop : Nat) :
      (textPiece start stop).IsChain fun p q => p.isToken ∨ q.isToken := by
    unfold textPiece
    split <;> simp
  induction h with
  | last _ => exact htext _ _
  | token _ _ _ ih =>
    refine List.isChain_append.2 ⟨htext _ _, List.isChain_cons.2 ⟨fun q _ => .inl rfl, ih⟩, ?_⟩
    rintro p - q hq
    obtain rfl := Option.some.inj hq
    exact .inr rfl

/-! ## §3 Tokens in their places -/

/-- Where the body of a token stands that has some text between its opening braces and its colon: from
behind the colon to the closing braces. -/
def Token.bodySpan (t : Token) (front : List Char) : Span :=
  ⟨bodyStart t.span.start front, t.span.stop - 2⟩

/-- A token stands in a text as it is written: at its span, and its body between the colon behind its
arguments and its closing braces. -/
structure Stands (cs front : List Char) (t : Token) : Prop where
  /-- The name and the arguments are written first. -/
  header : WrittenHeader front t.name t.args
  /-- The body, if there is one, is written between a colon and the closing braces. -/
  written : t.raw.toList = braced front (t.body.map String.toList)
  /-- All this is the text at the span. -/
  raw : TextAt 0 cs t.span t.raw.toList
  /-- The body is the text at its own span. -/
  body : ∀ text, t.body = some text → TextAt 0 cs (t.bodySpan front) text.toList

/-- Tokens stand in the body of another one after the other, and hold no tokens. -/
structure Nests (cs front : List Char) (t : Token) (nested : List Token) : Prop where
  /-- There is a body, and they lie in it. -/
  inside : ∀ u ∈ nested, t.body.isSome ∧ (t.bodySpan front).start ≤ u.span.start ∧
    u.span.stop ≤ (t.bodySpan front).stop
  /-- Each is a token of the text without tokens in its body. -/
  flat : ∀ u ∈ nested, TokenAt 0 cs u.span.start u []
  /-- They do not overlap, and come in the order of the text. -/
  ordered : nested.Pairwise fun u v => u.span.start < v.span.start ∧ u.span.stop ≤ v.span.start

theorem WrittenInner.token {pos : Nat} {w : List Char} {t : Token} (h : WrittenInner pos w t) :
    WrittenToken pos w t [] := by
  cases h with
  | closed hheader => exact .closed hheader
  | body hheader hplain => exact .body hheader (.last hplain.1)

/-- The tokens of a body are tokens of its text, without tokens in them. -/
theorem WrittenBody.flat {pos : Nat} {text : List Char} {nested : List Token}
    (h : WrittenBody pos text nested) : ∀ u ∈ nested, TokenAt pos text u.span.start u [] := by
  induction h with
  | last _ => simp
  | @token pos text w rest t nested _ first _ ih =>
    intro u hu
    rcases List.mem_cons.1 hu with rfl | hu
    · refine ⟨text, w, rest, rfl, ?_, ?_⟩
      · rw [first.span_eq]
      · rw [first.span_eq]
        exact first.token
    · exact (tokenAt_append₂.2 (ih u hu)).1

theorem braced_some (front text : List Char) : braced front (some text) =
    '{' :: '{' :: (front ++ [':']) ++ (text ++ ['}', '}']) := by
  simp [braced]

/-- The closing braces have one byte each, so the body ends two bytes before the token does. -/
theorem stop_braced_some (pos : Nat) (front text : List Char) :
    pos + byteLength (braced front (some text)) = bodyStart pos front + byteLength text + 2 := by
  rw [braced_some, byteLength_append, byteLength_append, ← Nat.add_assoc, ← Nat.add_assoc]
  rfl

/-- The tokens in the body of a token are tokens of its text, behind its opening braces. -/
theorem WrittenToken.flat {pos : Nat} {w : List Char} {t : Token} {nested : List Token}
    (h : WrittenToken pos w t nested) :
    ∀ u ∈ nested, pos < u.span.start ∧ TokenAt pos w u.span.start u [] := by
  cases h with
  | closed _ => simp
  | @body front text name args nested _ hbody =>
    intro u hu
    have hat := hbody.flat u hu
    have hopen := '{'.utf8Size_pos
    have hstart := hat.bounds.1
    refine ⟨?_, ?_⟩
    · rw [bodyStart, byteLength_cons] at hstart
      omega
    · rw [braced_some]
      exact (tokenAt_append.2 (hat.append_right _)).1

/-- The tokens in the body of a token of a text are tokens of the text, within it. -/
theorem TokenAt.flat {origin p : Nat} {cs : List Char} {t : Token} {nested : List Token}
    (h : TokenAt origin cs p t nested) : ∀ u ∈ nested,
      p < u.span.start ∧ u.span.stop ≤ t.span.stop ∧ TokenAt origin cs u.span.start u [] := by
  obtain ⟨before, w, after, rfl, rfl, hw⟩ := h
  intro u hu
  obtain ⟨hlt, hat⟩ := hw.flat u hu
  rw [hw.span_eq]
  exact ⟨hlt, hat.bounds.2.2.2, (tokenAt_append.2 (hat.append_right after)).1⟩

theorem WrittenBody.ordered {pos : Nat} {text : List Char} {nested : List Token}
    (h : WrittenBody pos text nested) :
    nested.Pairwise fun u v => u.span.start < v.span.start ∧ u.span.stop ≤ v.span.start := by
  induction h with
  | last _ => exact .nil
  | @token pos text w rest t nested _ first others ih =>
    refine .cons (fun u hu => ?_) ih
    have hpos := first.byteLength_pos
    have hbounds := (others.flat u hu).bounds
    rw [first.span_eq]
    dsimp only
    omega

theorem WrittenWith.raw_eq {Body : Nat → List Char → List Token → Prop} {pos : Nat} {w : List Char}
    {t : Token} {nested : List Token} (h : WrittenWith Body pos w t nested) : t.raw.toList = w := by
  cases h <;> exact String.toList_ofList

/-- A token of a text stands in it, and so do the tokens in its body. -/
theorem TokenAt.stands {p : Nat} {cs : List Char} {t : Token} {nested : List Token}
    (h : TokenAt 0 cs p t nested) : ∃ front, Stands cs front t ∧ Nests cs front t nested := by
  have hflat := h.flat
  obtain ⟨before, w, after, rfl, rfl, hw⟩ := h
  have hraw : TextAt 0 (before ++ (w ++ after)) t.span t.raw.toList := by
    rw [hw.raw_eq]
    exact ⟨before, after, rfl, by rw [hw.span_eq]⟩
  have hwritten := hw.raw_eq
  cases hw with
  | @closed front name args hheader =>
    exact ⟨front, ⟨hheader, hwritten, hraw, by simp [tokenAt]⟩, by simp, by simp, .nil⟩
  | @body front text name args nested hheader hbody =>
    have hspan : (tokenAt (0 + byteLength before) front name args (some text)).bodySpan front =
        ⟨bodyStart (0 + byteLength before) front,
          bodyStart (0 + byteLength before) front + byteLength text⟩ := by
      rw [Token.bodySpan, tokenAt, stop_braced_some, Nat.add_sub_cancel]
    refine ⟨front, ⟨hheader, by simp [tokenAt], hraw, ?_⟩, fun u hu => ?_,
      fun u hu => (hflat u hu).2.2, hbody.ordered⟩
    · rintro body hbody
      obtain rfl : String.ofList text = body := Option.some.inj hbody
      rw [hspan, String.toList_ofList]
      refine ⟨before ++ '{' :: '{' :: (front ++ [':']), '}' :: '}' :: after, by simp [braced], ?_⟩
      rw [byteLength_append, ← Nat.add_assoc]
      rfl
    · have hbounds := (hbody.flat u hu).bounds
      rw [hspan]
      exact ⟨rfl, hbounds.1, hbounds.2.2.2⟩

/-- The tokens in the body of a token lie behind its start and in its span. -/
theorem Nests.bounds {cs front : List Char} {t u : Token} {nested : List Token}
    (h : Nests cs front t nested) (hu : u ∈ nested) :
    t.span.start < u.span.start ∧ u.span.start < u.span.stop ∧ u.span.stop ≤ t.span.stop := by
  obtain ⟨-, hstart, hstop⟩ := h.inside u hu
  have hbounds := (h.flat u hu).bounds
  simp only [Token.bodySpan, bodyStart, byteLength_cons] at hstart hstop
  have := '{'.utf8Size_pos
  omega

/-- A template with one token that holds one other, as it is seen by some view of tokens. -/
theorem exists_pair_of_view {α : Type} (view : Token → α) {source : String} {a a' : α}
    (h : (pieces source).map (fun piece => piece.tokens.map view) = [[a, a']]) :
    ∃ outer inner, .token outer [inner] ∈ pieces source ∧ view outer = a ∧ view inner = a' := by
  obtain ⟨piece, hpieces, hviews⟩ := List.map_eq_singleton_iff.1 h
  cases piece with
  | text span => exact absurd hviews (by simp [Piece.tokens])
  | token outer nested =>
    simp only [Piece.tokens, List.map_cons, List.cons.injEq, List.map_eq_singleton_iff] at hviews
    obtain ⟨ha, inner, rfl, ha'⟩ := hviews
    exact ⟨outer, inner, by rw [hpieces]; exact List.mem_cons_self, ha, ha'⟩

/-! ## §4 The cover -/

theorem Cut.bounds_of_mem_tokens {pos : Nat} {cs : List Char} {ps : List Piece} (h : Cut pos cs ps)
    {piece : Piece} (hpiece : piece ∈ ps) {t : Token} (ht : t ∈ piece.tokens) :
    piece.span.start ≤ t.span.start ∧ t.span.start < t.span.stop ∧
      t.span.stop ≤ piece.span.stop := by
  cases piece with
  | text span => exact absurd ht (by simp [Piece.tokens])
  | token outer nested =>
    have hat := h.tokenAt hpiece
    rcases List.mem_cons.1 ht with rfl | ht
    · exact ⟨Nat.le_refl _, hat.bounds.2.2.1, Nat.le_refl _⟩
    · obtain ⟨hlt, hle, hinner⟩ := hat.flat t ht
      exact ⟨hlt.le, hinner.bounds.2.2.1, hle⟩

/-- The tokens of a cut, also those in bodies, are tokens of the text. -/
theorem Cut.exists_tokenAt {pos : Nat} {cs : List Char} {ps : List Piece} (h : Cut pos cs ps)
    {t : Token} (ht : t ∈ ps.flatMap Piece.tokens) :
    ∃ nested, TokenAt pos cs t.span.start t nested := by
  obtain ⟨piece, hpiece, ht⟩ := List.mem_flatMap.1 ht
  cases piece with
  | text span => exact absurd ht List.not_mem_nil
  | token outer nested =>
    have hat := h.tokenAt hpiece
    rcases List.mem_cons.1 ht with rfl | ht
    · exact ⟨nested, hat⟩
    · exact ⟨[], (hat.flat t ht).2.2⟩

theorem Cut.le_start {pos : Nat} {cs : List Char} {ps : List Piece} (h : Cut pos cs ps) {t : Token}
    (ht : t ∈ ps.flatMap Piece.tokens) : pos ≤ t.span.start := by
  obtain ⟨nested, hat⟩ := h.exists_tokenAt ht
  exact hat.bounds.1

/-- The tokens of a cut come in the order of the text; two of them overlap only if one stands in the
body of the other. -/
theorem Cut.pairwise_tokens {cs : List Char} {ps : List Piece} (h : Cut 0 cs ps) :
    (ps.flatMap Piece.tokens).Pairwise fun t u => t.span.start < u.span.start ∧
      (t.span.stop ≤ u.span.start ∨ ∃ nested, .token t nested ∈ ps ∧ u ∈ nested) := by
  refine List.pairwise_flatMap.2 ⟨fun piece hpiece => ?_, ?_⟩
  -- Within a piece, the outer token comes first and holds the others; pieces do not overlap.
  · cases piece with
    | text span => exact .nil
    | token outer nested =>
      obtain ⟨front, -, hnests⟩ := (h.tokenAt hpiece).stands
      exact .cons (fun u hu => ⟨(hnests.bounds hu).1, .inr ⟨nested, hpiece, hu⟩⟩)
        (hnests.ordered.imp fun hbefore => ⟨hbefore.1, .inl hbefore.2⟩)
  · refine (List.pairwise_map.1 h.tiles.pairwise).imp_of_mem fun hp hq hle t ht u hu => ?_
    have hfirst := h.bounds_of_mem_tokens hp ht
    have hsecond := h.bounds_of_mem_tokens hq hu
    exact ⟨by omega, .inl (by omega)⟩

/-- **The pieces of a template cover it.**  They tile it, so their texts are the whole; of two side by
side, one is a token.  Every token, also in the body of another, stands in the template at its span,
with its body between its colon and its closing braces; the tokens in a body come one after the other
and hold no tokens.  The tokens of a template are in the order in which they start, and any two are
disjoint or parent and child. -/
theorem pieces_cover (source : String) :
    Tiles 0 ((pieces source).map Piece.span) (byteLength source.toList) ∧
    (∃ texts, List.Forall₂ (fun p w => TextAt 0 source.toList p.span w) (pieces source) texts ∧
      texts.flatten = source.toList) ∧
    ((pieces source).IsChain fun p q => p.isToken ∨ q.isToken) ∧
    (∀ t nested, .token t nested ∈ pieces source → ∃ front, Stands source.toList front t ∧
      Nests source.toList front t nested ∧ ∀ u ∈ nested, ∃ front', Stands source.toList front' u) ∧
    (tokens source).Pairwise fun t u => t.span.start < u.span.start ∧
      (t.span.stop ≤ u.span.start ∨ ∃ nested, .token t nested ∈ pieces source ∧ u ∈ nested) := by
  have hcut := cut_pieces source
  have htiles := hcut.tiles
  rw [Nat.zero_add] at htiles
  refine ⟨htiles, hcut.texts, hcut.alternates, fun t nested ht => ?_, hcut.pairwise_tokens⟩
  obtain ⟨front, hstands, hnests⟩ := (hcut.tokenAt ht).stands
  refine ⟨front, hstands, hnests, fun u hu => ?_⟩
  obtain ⟨front', hstands', -⟩ := (hnests.flat u hu).stands
  exact ⟨front', hstands'⟩

end Stencil.Template
