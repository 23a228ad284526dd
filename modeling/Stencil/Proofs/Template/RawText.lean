import Stencil.Proofs.Template.Cover

/-!
# What a Raw Text Says

How a token is read depends on nothing but its raw text: not on where it stands, not on what is before or
behind it, and not on whether it stands in the body of another.  So its raw text alone is cut into that one
token, and tokens that are written alike are alike.  The text between tokens, read alone, has no token.

Main statement: `raw_determines_token`.
-/

namespace Stencil.Template

open Stencil.Text

/-! ## §1 Tokens elsewhere -/

/-- The token as it stands elsewhere: what is at one byte position is moved to another. -/
def Token.move (source target : Nat) (t : Token) : Token :=
  { t with span := ⟨target + (t.span.start - source), target + (t.span.stop - source)⟩ }

theorem move_tokenAt (source target k : Nat) (front : List Char) (name : String) (args : Arguments)
    (body : Option (List Char)) :
    (tokenAt (source + k) front name args body).move source target =
      tokenAt (target + k) front name args body := by
  have hstop : target + (source + k + byteLength (braced front body) - source) =
      target + k + byteLength (braced front body) := by omega
  rw [Token.move, tokenAt, tokenAt, hstop, Nat.add_sub_cancel_left]

theorem WrittenInner.move {source k : Nat} {w : List Char} {t : Token}
    (h : WrittenInner (source + k) w t) (target : Nat) :
    WrittenInner (target + k) w (t.move source target) := by
  cases h with
  | closed hheader =>
    rw [move_tokenAt]
    exact .closed hheader
  | body hheader hplain =>
    rw [move_tokenAt]
    exact .body hheader hplain

theorem WrittenBody.move {source k : Nat} {text : List Char} {nested : List Token}
    (h : WrittenBody (source + k) text nested) (target : Nat) :
    WrittenBody (target + k) text (nested.map (Token.move source target)) := by
  generalize hpos : source + k = pos at h
  induction h generalizing k with
  | last hpair => exact .last hpair
  | @token pos text w rest t nested hpair first _ ih =>
    subst hpos
    rw [Nat.add_assoc] at first
    have hfirst := first.move target
    have hothers := ih (k := k + byteLength text + byteLength w) (by omega)
    rw [← Nat.add_assoc] at hfirst
    rw [← Nat.add_assoc, ← Nat.add_assoc] at hothers
    exact .token hpair hfirst hothers

/-- A token may stand elsewhere, with the tokens in its body. -/
theorem WrittenToken.move {source k : Nat} {w : List Char} {t : Token} {nested : List Token}
    (h : WrittenToken (source + k) w t nested) (target : Nat) :
    WrittenToken (target + k) w (t.move source target) (nested.map (Token.move source target)) := by
  cases h with
  | closed hheader =>
    rw [move_tokenAt]
    exact .closed hheader
  | body hheader hbody =>
    rw [move_tokenAt]
    rw [bodyStart, Nat.add_assoc] at hbody
    have hmoved := hbody.move target
    rw [← Nat.add_assoc] at hmoved
    exact .body hheader hmoved

/-! ## §2 Texts alone -/

/-- What is written as one token is cut into that. -/
theorem pieces_of_written {w : List Char} {t : Token} {nested : List Token}
    (h : WrittenToken 0 w t nested) : pieces (.ofList w) = [.token t nested] := by
  have hread : scanToken 0 w = some (t, nested, []) :=
    scanToken_eq_some_iff.2 ⟨w, (List.append_nil w).symm, h⟩
  rw [pieces, String.toList_ofList, scanPieces_of_scanToken hread]
  simp [textPiece, scanPieces]

theorem pieces_braced {front : List Char} {name : String} {args : Arguments}
    (header : WrittenHeader front name args) {body : Option (List Char)}
    (hbody : ∀ text ∈ body, BraceFree text) :
    pieces (.ofList (braced front body)) = [.token (tokenAt 0 front name args body) []] := by
  refine pieces_of_written ?_
  cases body with
  | none => exact .closed header
  | some text =>
    have hpair := scanPlainBody_eq_some_iff.1 (scanPlainBody_braceFree (hbody text rfl) [])
    exact .body header (.last hpair.2)

theorem textPiece_eq_nil_iff {pos : Nat} {text : List Char} :
    textPiece pos (pos + byteLength text) = [] ↔ text = [] := by
  rw [textPiece, ← byteLength_eq_zero_iff]
  split
  · simp only [reduceCtorEq, false_iff]
    omega
  · simp only [true_iff]
    omega

theorem Cut.eq_nil {pos : Nat} {cs : List Char} (h : Cut pos cs []) : cs = [] := by
  generalize hps : ([] : List Piece) = ps at h
  cases h with
  | last _ => exact textPiece_eq_nil_iff.1 hps.symm
  | token _ _ _ => simp at hps

/-- A text that is cut into one token is written as that. -/
theorem written_of_pieces {source : String} {t : Token} {nested : List Token}
    (h : pieces source = [.token t nested]) : WrittenToken 0 source.toList t nested := by
  have hcut := cut_pieces source
  rw [h] at hcut
  generalize source.toList = cs at hcut
  generalize hps : [Piece.token t nested] = ps at hcut
  cases hcut with
  | last _ => exact absurd (hps ▸ List.mem_singleton_self _) (token_notMem_textPiece _ _ _ _)
  | @token _ text w rest t' nested' ps' _ first others =>
    -- Nothing stands before the token, and nothing behind it.
    obtain ⟨htext, hpiece, rfl⟩ : textPiece 0 (0 + byteLength text) = [] ∧
        Piece.token t nested = .token t' nested' ∧ ps' = [] := by
      generalize textPiece 0 (0 + byteLength text) = front at hps
      cases front with
      | nil => simpa [eq_comm] using hps
      | cons piece front => simp at hps
    obtain rfl := textPiece_eq_nil_iff.1 htext
    obtain ⟨rfl, rfl⟩ := Piece.token.inj hpiece
    obtain rfl := others.eq_nil
    simpa using first

/-- The raw text of a token is cut into that token, moved to the start. -/
theorem TokenAt.pieces_raw {cs : List Char} {p : Nat} {t : Token} {nested : List Token}
    (h : TokenAt 0 cs p t nested) :
    pieces t.raw = [.token (t.move p 0) (nested.map (Token.move p 0))] := by
  obtain ⟨_, w, _, -, -, hw⟩ := h
  have hraw : t.raw = .ofList w := by rw [← hw.raw_eq, String.ofList_toList]
  rw [hraw]
  exact pieces_of_written (WrittenToken.move (k := 0) hw 0)

/-- A token that starts in a text starts in it wherever that stands. -/
theorem TokenAt.exists_move {cs : List Char} {p : Nat} {t : Token} {nested : List Token}
    (h : TokenAt 0 cs p t nested) (pos : Nat) :
    ∃ t' nested', TokenAt pos cs (pos + p) t' nested' := by
  obtain ⟨before, w, after, rfl, rfl, hw⟩ := h
  rw [Nat.zero_add]
  exact ⟨_, _, before, w, after, rfl, rfl, hw.move pos⟩

/-- Where no token starts in a text, whatever is behind it, the text alone is one piece. -/
theorem Silent.pieces_eq {pos : Nat} {text rest : List Char} (h : Silent pos text rest) :
    pieces (.ofList text) = textPiece 0 (byteLength text) := by
  have hcut := cut_pieces (.ofList text)
  rw [String.toList_ofList] at hcut
  generalize pieces (.ofList text) = ps at hcut
  have hnone : ∀ p t nested, ¬TokenAt 0 text p t nested := by
    intro p t nested ht
    obtain ⟨t', nested', ht'⟩ := ht.exists_move pos
    obtain ⟨-, -, hlt, hle⟩ := ht.bounds
    refine h _ t' nested' ?_ (ht'.append_right rest)
    omega
  cases hcut with
  | @last _ text _ => rw [Nat.zero_add]
  | @token _ text w rest t nested ps _ first _ =>
    exact absurd ⟨text, w, rest, rfl, rfl, first⟩ (hnone _ t nested)

/-- The text between two tokens stands at its piece, and alone it is one piece of text. -/
theorem Cut.pieces_text {pos : Nat} {cs : List Char} {ps : List Piece} (h : Cut pos cs ps) {span : Span}
    (hspan : .text span ∈ ps) :
    ∃ w, TextAt pos cs span w ∧ pieces (.ofList w) = [.text ⟨0, byteLength w⟩] := by
  -- The piece is the whole text before a token or the end, as far as there is any.
  have halone {pos : Nat} {text rest : List Char} (hsilent : Silent pos text rest)
      (hmem : .text span ∈ textPiece pos (pos + byteLength text)) :
      TextAt pos (text ++ rest) span text ∧
        pieces (.ofList text) = [.text ⟨0, byteLength text⟩] := by
    have hne : 0 < byteLength text := by
      unfold textPiece at hmem
      split at hmem
      · omega
      · exact absurd hmem List.not_mem_nil
    rw [textPiece, if_pos (by omega), List.mem_singleton, Piece.text.injEq] at hmem
    refine ⟨⟨[], rest, rfl, hmem⟩, ?_⟩
    rw [hsilent.pieces_eq, textPiece, if_pos hne]
  induction h with
  | @last pos text hsilent =>
    obtain ⟨hat, halone⟩ := halone hsilent hspan
    rw [List.append_nil] at hat
    exact ⟨text, hat, halone⟩
  | @token pos text w rest t nested ps hsilent _ _ ih =>
    rcases List.mem_append.1 hspan with hspan | hspan
    · exact ⟨text, halone hsilent hspan⟩
    · obtain ⟨v, hv, halone⟩ := ih (by simpa using hspan)
      exact ⟨v, TextAt.append_left text (TextAt.append_left w hv), halone⟩

/-! ## §3 Tokens that are written alike -/

/-- The raw text of every token of a text, also of one in the body of another, is cut into one token:
that token, moved to the start. -/
theorem exists_pieces_raw {source : String} {t : Token} (h : t ∈ tokens source) :
    ∃ nested : List Token, pieces t.raw =
      [.token (t.move t.span.start 0) (nested.map (Token.move t.span.start 0))] := by
  obtain ⟨nested, hat⟩ := (cut_pieces source).exists_tokenAt h
  exact ⟨nested, hat.pieces_raw⟩

/-- Tokens that are written alike, in the same text or in two, have the same parts. -/
theorem parts_eq_of_raw_eq {source source' : String} {t u : Token} (ht : t ∈ tokens source)
    (hu : u ∈ tokens source') (hraw : t.raw = u.raw) :
    t.name = u.name ∧ t.args = u.args ∧ t.body = u.body := by
  obtain ⟨nested, hpieces⟩ := exists_pieces_raw ht
  obtain ⟨nested', hpieces'⟩ := exists_pieces_raw hu
  rw [hraw, hpieces', List.cons.injEq, Piece.token.injEq] at hpieces
  have hsame := hpieces.1.1
  simp only [Token.move, Token.mk.injEq] at hsame
  exact ⟨hsame.1.symm, hsame.2.1.symm, hsame.2.2.1.symm⟩

/-- **A token is determined by its raw text.**  The raw text of a token, cut alone, is one piece: that
token with the tokens in its body, all of them moved to the start.  The same holds for the tokens in its
body, which hold none.  So tokens of any two texts that are written alike have the same name, arguments
and body.  And the text at a piece of text, cut alone, is one piece of text. -/
theorem raw_determines_token (source : String) :
    (∀ t nested, .token t nested ∈ pieces source →
      pieces t.raw = [.token (t.move t.span.start 0) (nested.map (Token.move t.span.start 0))] ∧
      ∀ u ∈ nested, pieces u.raw = [.token (u.move u.span.start 0) []]) ∧
    (∀ source' t u, t ∈ tokens source → u ∈ tokens source' → t.raw = u.raw →
      t.name = u.name ∧ t.args = u.args ∧ t.body = u.body) ∧
    ∀ span, .text span ∈ pieces source → ∃ w, TextAt 0 source.toList span w ∧
      pieces (.ofList w) = [.text ⟨0, byteLength w⟩] := by
  have hcut := cut_pieces source
  refine ⟨fun t nested ht => ⟨(hcut.tokenAt ht).pieces_raw, fun u hu => ?_⟩,
    fun _ _ _ ht hu hraw => parts_eq_of_raw_eq ht hu hraw, fun _ hspan => hcut.pieces_text hspan⟩
  obtain ⟨front, -, hnests⟩ := (hcut.tokenAt ht).stands
  exact (hnests.flat u hu).pieces_raw

end Stencil.Template
