import Stencil.Template.Lookup
import Stencil.Proofs.Template.Grammar

/-!
# How Templates Are Cut

A template is cut into pieces at the leftmost tokens of the grammar: the text before the first token,
that token, and then what follows it in the same way.  The relation `Cut` says this without a scanner,
and `cut_pieces` that the scanner cuts so.

Main statement: `tokenizer_exact` (tokens are read where and as the grammar has them, and those are
reported that do not start inside others).
-/

namespace Stencil.Template

open Stencil.Text

/-! ## §1 Where tokens start -/

/-- A token starts at a byte position of a text whose first byte has the position `origin`. -/
def TokenAt (origin : Nat) (cs : List Char) (p : Nat) (t : Token) (nested : List Token) : Prop :=
  ∃ before w after, cs = before ++ (w ++ after) ∧ origin + byteLength before = p ∧
    WrittenToken p w t nested

theorem byteLength_eq_zero_iff {cs : List Char} : byteLength cs = 0 ↔ cs = [] := by
  cases cs with
  | nil => simp
  | cons c cs => simp [c.utf8Size_pos.ne']

/-- Of two parts at the start of a text, the one with fewer bytes starts the other. -/
theorem exists_append_of_byteLength_le {a b cs ds : List Char} (h : a ++ cs = b ++ ds)
    (hle : byteLength a ≤ byteLength b) : ∃ c, b = a ++ c ∧ cs = c ++ ds := by
  rcases List.append_eq_append_iff.1 h with ⟨c, rfl, hcs⟩ | ⟨c, rfl, hds⟩
  · exact ⟨c, rfl, hcs⟩
  · rw [byteLength_append] at hle
    obtain rfl : c = [] := byteLength_eq_zero_iff.1 (by omega)
    exact ⟨[], by simp, by simpa using hds.symm⟩

theorem byteLength_takeBytes {n : Nat} {cs rest : List Char} {c : Char}
    (h : dropBytes n cs = c :: rest) (hc : c.utf8Size = 1) : byteLength (takeBytes n cs) = n := by
  induction cs generalizing n with
  | nil => exact absurd h (by simp [dropBytes])
  | cons d cs ih =>
    rw [dropBytes] at h
    rw [takeBytes_cons]
    split at h
    · rename_i hd
      rw [if_pos hd, byteLength_cons, ih h]
      omega
    · rename_i hd
      obtain ⟨rfl, -⟩ := List.cons.inj h
      rw [if_neg hd, byteLength_nil]
      omega

theorem WrittenWith.byteLength_pos {Body : Nat → List Char → List Token → Prop} {pos : Nat}
    {w : List Char} {t : Token} {nested : List Token} (h : WrittenWith Body pos w t nested) :
    0 < byteLength w := by
  obtain ⟨tail, rfl⟩ := h.exists_cons
  rw [byteLength_cons]
  exact Nat.add_pos_left (Char.utf8Size_pos _) _

/-- Tokens are read at the positions where they start, and nowhere else. -/
theorem tokenAt_iff_scanToken {origin k : Nat} {cs : List Char} {t : Token} {nested : List Token} :
    TokenAt origin cs (origin + k) t nested ↔
      ∃ rest, scanToken (origin + k) (dropBytes k cs) = some (t, nested, rest) := by
  constructor
  · rintro ⟨before, w, after, rfl, hp, hw⟩
    obtain rfl : byteLength before = k := by omega
    rw [dropBytes_append]
    exact ⟨after, scanToken_eq_some_iff.2 ⟨w, rfl, hw⟩⟩
  · rintro ⟨rest, h⟩
    obtain ⟨w, hcs, hw⟩ := scanToken_eq_some_iff.1 h
    obtain ⟨tail, hopen⟩ := hw.exists_cons
    have hlength : byteLength (takeBytes k cs) = k :=
      byteLength_takeBytes (hcs.trans (by rw [hopen]; rfl)) rfl
    refine ⟨takeBytes k cs, w, rest, ?_, by rw [hlength], hw⟩
    rw [← hcs, takeBytes_append_dropBytes]

/-- One token at most starts at a position, and one way leads to it. -/
theorem TokenAt.unique {origin p : Nat} {cs : List Char} {t t' : Token} {nested nested' : List Token}
    (h : TokenAt origin cs p t nested) (h' : TokenAt origin cs p t' nested') :
    t = t' ∧ nested = nested' := by
  obtain ⟨k, rfl⟩ : ∃ k, p = origin + k := by
    obtain ⟨before, -, -, -, hp, -⟩ := h
    exact ⟨_, hp.symm⟩
  obtain ⟨rest, hread⟩ := tokenAt_iff_scanToken.1 h
  obtain ⟨rest', hread'⟩ := tokenAt_iff_scanToken.1 h'
  have heq := Option.some.inj (hread.symm.trans hread')
  simp only [Prod.mk.injEq] at heq
  exact ⟨heq.1, heq.2.1⟩

theorem TokenAt.bounds {origin p : Nat} {cs : List Char} {t : Token} {nested : List Token}
    (h : TokenAt origin cs p t nested) :
    origin ≤ p ∧ t.span.start = p ∧ p < t.span.stop ∧ t.span.stop ≤ origin + byteLength cs := by
  obtain ⟨before, w, after, rfl, hp, hw⟩ := h
  have hpos := hw.byteLength_pos
  rw [hw.span_eq, byteLength_append, byteLength_append]
  dsimp only
  omega

/-- The tokens that start behind a part of a text are those of the rest. -/
theorem tokenAt_append {origin p : Nat} {a cs : List Char} {t : Token} {nested : List Token} :
    TokenAt origin (a ++ cs) p t nested ∧ origin + byteLength a ≤ p ↔
      TokenAt (origin + byteLength a) cs p t nested := by
  constructor
  · rintro ⟨⟨before, w, after, hcs, hp, hw⟩, hle⟩
    obtain ⟨c, rfl, rfl⟩ := exists_append_of_byteLength_le hcs (by omega)
    rw [byteLength_append] at hp
    exact ⟨c, w, after, rfl, by omega, hw⟩
  · intro h
    refine ⟨?_, h.bounds.1⟩
    obtain ⟨before, w, after, rfl, hp, hw⟩ := h
    exact ⟨a ++ before, w, after, by simp, by rw [byteLength_append]; omega, hw⟩

theorem TokenAt.append_right {origin p : Nat} {cs : List Char} {t : Token} {nested : List Token}
    (h : TokenAt origin cs p t nested) (ds : List Char) : TokenAt origin (cs ++ ds) p t nested := by
  obtain ⟨before, w, after, rfl, hp, hw⟩ := h
  exact ⟨before, w, after ++ ds, by simp, hp, hw⟩

/-- The tokens that start behind two parts of a text are those of the rest. -/
theorem tokenAt_append₂ {origin p : Nat} {a b cs : List Char} {t : Token} {nested : List Token} :
    TokenAt origin (a ++ (b ++ cs)) p t nested ∧ origin + byteLength a + byteLength b ≤ p ↔
      TokenAt (origin + byteLength a + byteLength b) cs p t nested := by
  rw [← List.append_assoc, Nat.add_assoc, ← byteLength_append]
  exact tokenAt_append

/-! ## §2 Cuts -/

/-- A token is read before what follows it. -/
theorem scanPieces_of_scanToken {start pos : Nat} {cs after : List Char} {t : Token}
    {nested : List Token} (h : scanToken pos cs = some (t, nested, after)) :
    scanPieces start pos cs =
      textPiece start pos ++ .token t nested :: scanPieces t.span.stop t.span.stop after := by
  cases cs with
  | nil => simp [scanToken] at h
  | cons c rest =>
    rw [scanPieces]
    split
    · rename_i t' nested' after' hsome
      rw [h] at hsome
      cases hsome
      rfl
    · rename_i hnone
      rw [h] at hnone
      exact absurd hnone (by simp)

/-- A character at which no token starts belongs to the text before a token. -/
theorem scanPieces_of_none {start pos : Nat} {c : Char} {rest : List Char}
    (h : scanToken pos (c :: rest) = none) :
    scanPieces start pos (c :: rest) = scanPieces start (pos + c.utf8Size) rest := by
  rw [scanPieces]
  split
  · rename_i hsome
    rw [h] at hsome
    exact absurd hsome (by simp)
  · rfl

/-- No token starts in the first of two parts of a text. -/
def Silent (pos : Nat) (text rest : List Char) : Prop :=
  ∀ p t nested, p < pos + byteLength text → ¬TokenAt pos (text ++ rest) p t nested

/-- A text from a position on and the pieces that it is cut into at its leftmost tokens. -/
inductive Cut : Nat → List Char → List Piece → Prop
  /-- Text in which no token starts, up to the end. -/
  | last {pos : Nat} {text : List Char} (h : Silent pos text []) :
      Cut pos text (textPiece pos (pos + byteLength text))
  /-- Text in which no token starts, a token, and what follows it. -/
  | token {pos : Nat} {text w rest : List Char} {t : Token} {nested : List Token} {ps : List Piece}
      (h : Silent pos text (w ++ rest)) (first : WrittenToken (pos + byteLength text) w t nested)
      (others : Cut (pos + byteLength text + byteLength w) rest ps) :
      Cut pos (text ++ (w ++ rest))
        (textPiece pos (pos + byteLength text) ++ .token t nested :: ps)

theorem silent_nil (pos : Nat) (rest : List Char) : Silent pos [] rest :=
  fun _ _ _ hlt h => Nat.not_lt.2 h.bounds.1 hlt

/-- Text with nothing behind it has no tokens if none starts in it. -/
theorem Silent.not_tokenAt {pos : Nat} {text : List Char} (h : Silent pos text []) (p : Nat)
    (t : Token) (nested : List Token) : ¬TokenAt pos text p t nested := by
  intro ht
  obtain ⟨_, _, hlt, hle⟩ := ht.bounds
  rw [← List.append_nil text] at ht
  exact h p t nested (by omega) ht

/-- A character at which no token starts may stand behind text in which none starts. -/
theorem Silent.append_singleton {pos : Nat} {text rest : List Char} {c : Char}
    (h : Silent pos text (c :: rest)) (hc : scanToken (pos + byteLength text) (c :: rest) = none) :
    Silent pos (text ++ [c]) rest := by
  intro p t nested hlt ht
  rw [List.append_assoc, List.singleton_append] at ht
  rcases Nat.lt_or_ge p (pos + byteLength text) with hbefore | hle
  · exact h p t nested hbefore ht
  · -- The token starts inside the character: at its first byte, where none is read.
    obtain ⟨before, w, after, hcs, hp, hw⟩ := tokenAt_append.1 ⟨ht, hle⟩
    cases before with
    | nil =>
      obtain rfl : p = pos + byteLength text := hp.symm
      exact absurd (scanToken_eq_some_iff.2 ⟨w, hcs, hw⟩) (by simp [hc])
    | cons d before =>
      obtain rfl : c = d := (List.cons.inj hcs).1
      simp only [byteLength_append, byteLength_cons, byteLength_nil] at hlt hp
      omega

/-- The scanner cuts at the leftmost tokens, when text that is still to be given out has none. -/
theorem cut_scanPieces {start pos : Nat} {text cs : List Char} (hpos : pos = start + byteLength text)
    (h : Silent start text cs) : Cut start (text ++ cs) (scanPieces start pos cs) := by
  -- The invariant is that no token starts in the text between `start` and `pos`.
  fun_induction scanPieces start pos cs generalizing text with
  | case1 start pos =>
    subst hpos
    rw [List.append_nil]
    exact .last h
  | case2 start pos c rest t nested after hread ih =>
    subst hpos
    obtain ⟨w, hcs, hw⟩ := scanToken_eq_some_iff.1 hread
    rw [hcs] at h ⊢
    have hothers : Cut t.span.stop ([] ++ after) _ := ih rfl (silent_nil _ _)
    rw [List.nil_append, hw.span_eq] at hothers
    rw [hw.span_eq]
    exact .token h hw hothers
  | case3 start pos c rest hread ih =>
    subst hpos
    have hrest : Cut start (text ++ [c] ++ rest) _ :=
      ih (by simp [Nat.add_assoc]) (h.append_singleton hread)
    rwa [List.append_assoc, List.singleton_append] at hrest

/-- Templates are cut at their leftmost tokens. -/
theorem cut_pieces (source : String) : Cut 0 source.toList (pieces source) :=
  show Cut 0 ([] ++ source.toList) _ from cut_scanPieces rfl (silent_nil _ _)

theorem token_notMem_textPiece (t : Token) (nested : List Token) (start stop : Nat) :
    Piece.token t nested ∉ textPiece start stop := by
  unfold textPiece
  split <;> simp

theorem Cut.tokenAt {pos : Nat} {cs : List Char} {ps : List Piece} (h : Cut pos cs ps) {t : Token}
    {nested : List Token} (ht : .token t nested ∈ ps) : TokenAt pos cs t.span.start t nested := by
  induction h with
  | last _ => exact absurd ht (token_notMem_textPiece _ _ _ _)
  | @token pos text w rest t₀ nested₀ ps _ first _ ih =>
    rcases List.mem_append.1 ht with ht | ht
    · exact absurd ht (token_notMem_textPiece _ _ _ _)
    · rcases List.mem_cons.1 ht with heq | ht
      · obtain ⟨rfl, rfl⟩ := Piece.token.inj heq
        refine ⟨text, w, rest, rfl, ?_, ?_⟩
        · rw [first.span_eq]
        · rwa [first.span_eq]
      · exact (tokenAt_append₂.2 (ih ht)).1

/-- What is in a cut behind text: a token, or what follows the token. -/
theorem token_mem_cut_iff {start stop : Nat} {t t' : Token} {nested nested' : List Token}
    {ps : List Piece} : .token t nested ∈ textPiece start stop ++ .token t' nested' :: ps ↔
      (t = t' ∧ nested = nested') ∨ .token t nested ∈ ps := by
  rw [List.mem_append, List.mem_cons, Piece.token.injEq]
  exact or_iff_right (token_notMem_textPiece _ _ _ _)

/-- A cut holds exactly the tokens that do not start inside others of it. -/
theorem Cut.token_mem_iff {pos : Nat} {cs : List Char} {ps : List Piece} (h : Cut pos cs ps)
    {t : Token} {nested : List Token} : .token t nested ∈ ps ↔
      TokenAt pos cs t.span.start t nested ∧ ∀ u us, .token u us ∈ ps →
        ¬(u.span.start < t.span.start ∧ t.span.start < u.span.stop) := by
  induction h with
  | last hsilent =>
    exact ⟨fun ht => absurd ht (token_notMem_textPiece _ _ _ _),
      fun ⟨ht, _⟩ => absurd ht (hsilent.not_tokenAt _ _ _)⟩
  | @token pos text w rest t₀ nested₀ ps hsilent first others ih =>
    have hfirst : TokenAt pos (text ++ (w ++ rest)) (pos + byteLength text) t₀ nested₀ :=
      ⟨text, w, rest, rfl, rfl, first⟩
    have hspan := first.span_eq
    have hstop : pos + byteLength text + byteLength w = t₀.span.stop := by rw [hspan]
    have hstart : t₀.span.start = pos + byteLength text := by rw [hspan]
    simp only [token_mem_cut_iff]
    constructor
    · rintro (⟨rfl, rfl⟩ | ht)
      · refine ⟨hstart ▸ hfirst, ?_⟩
        rintro u us (⟨rfl, rfl⟩ | hu) hinside
        · omega
        · have := (others.tokenAt hu).bounds
          omega
      · obtain ⟨hat, houtside⟩ := ih.1 ht
        refine ⟨(tokenAt_append₂.2 hat).1, ?_⟩
        rintro u us (⟨rfl, rfl⟩ | hu) hinside
        · have := hat.bounds
          omega
        · exact houtside u us hu hinside
    · rintro ⟨hat, houtside⟩
      -- Before the first token nothing starts, and what starts in it is excluded.
      rcases Nat.lt_trichotomy t.span.start (pos + byteLength text) with hlt | heq | hgt
      · exact absurd hat (hsilent _ _ _ hlt)
      · exact .inl ((heq ▸ hat).unique hfirst)
      · have hle : pos + byteLength text + byteLength w ≤ t.span.start := by
          have := houtside t₀ nested₀ (.inl ⟨rfl, rfl⟩)
          omega
        exact .inr (ih.2 ⟨tokenAt_append₂.1 ⟨hat, hle⟩, fun u us hu => houtside u us (.inr hu)⟩)

/-! ## §3 The tokenizer -/

/-- **The tokenizer accepts exactly its grammar.**  At every byte position a token is read exactly if
one starts there, with its parts and the tokens in its body; these are determined by the text.  A
template reports exactly the tokens that do not start inside other reported ones. -/
theorem tokenizer_exact (source : String) :
    (∀ p t nested, (∃ rest, scanToken p (dropBytes p source.toList) = some (t, nested, rest)) ↔
      TokenAt 0 source.toList p t nested) ∧
    (∀ p t nested t' nested', TokenAt 0 source.toList p t nested →
      TokenAt 0 source.toList p t' nested' → t = t' ∧ nested = nested') ∧
    ∀ t nested, .token t nested ∈ pieces source ↔
      TokenAt 0 source.toList t.span.start t nested ∧ ∀ u us, .token u us ∈ pieces source →
        ¬(u.span.start < t.span.start ∧ t.span.start < u.span.stop) := by
  refine ⟨fun p t nested => ?_, fun _ _ _ _ _ => TokenAt.unique, fun _ _ =>
    (cut_pieces source).token_mem_iff⟩
  have hread := @tokenAt_iff_scanToken 0 p source.toList t nested
  rw [Nat.zero_add] at hread
  exact hread.symm

end Stencil.Template
