import Stencil.Proofs.Template.Cover
import Stencil.Proofs.Template.Lookups

/-!
# The Token That Comes Next

A text is asked for the tokens of a name in three ways: whether it has any, which one is evaluated next,
and which there are.  The answers agree, and the token that is evaluated next is the one that ends first:
all others stand behind it, except for one that it stands in.

Main statement: `lookups_agree`.
-/

namespace Stencil.Template

/-- A token ends before those of the pieces behind its own start. -/
theorem Cut.stop_le_of_append {cs : List Char} {ahead behind : List Piece} {piece : Piece}
    (h : Cut 0 cs (ahead ++ piece :: behind)) {t u : Token} (ht : t ∈ piece.tokens)
    (hu : u ∈ behind.flatMap Piece.tokens) :
    t.span.stop ≤ u.span.start ∧ u.span.start < u.span.stop := by
  obtain ⟨later, hlater, hu⟩ := List.mem_flatMap.1 hu
  have hpairwise := (List.pairwise_append.1 (List.pairwise_map.1 h.tiles.pairwise)).2.1
  have hle : piece.span.stop ≤ later.span.start := (List.pairwise_cons.1 hpairwise).1 later hlater
  have hfirst := h.bounds_of_mem_tokens (List.mem_append_right _ List.mem_cons_self) ht
  have hsecond := h.bounds_of_mem_tokens
    (List.mem_append_right _ (List.mem_cons_of_mem _ hlater)) hu
  omega

/-- A token in the body of another ends before that does. -/
theorem Nests.stop_lt {cs front : List Char} {t u : Token} {nested : List Token}
    (h : Nests cs front t nested) (hu : u ∈ nested) : u.span.stop < t.span.stop := by
  obtain ⟨-, -, hstop⟩ := h.inside u hu
  have hbounds := h.bounds hu
  simp only [Token.bodySpan] at hstop
  omega

/-- The token that is evaluated next stands among those of its piece behind one that it stands in, if
that has the name, and ahead of all others. -/
theorem exists_filter_tokens {cs : List Char} {ps : List Piece} {piece : Piece} (hcut : Cut 0 cs ps)
    (hpiece : piece ∈ ps) {name : String} {t : Token} {nested : List Token}
    (h : piece.firstNamed name = some (t, nested)) :
    t.name = name ∧ TokenAt 0 cs t.span.start t nested ∧ (∀ u ∈ nested, u.name ≠ name) ∧
      ∃ before after, piece.tokens.filter (·.name == name) = before ++ t :: after ∧
        (∀ u ∈ before, t.span.stop < u.span.stop ∧ ∃ us, .token u us ∈ ps ∧ t ∈ us) ∧
        ∀ u ∈ after, t.span.start < u.span.start ∧ t.span.stop < u.span.stop := by
  obtain ⟨outer, us, rfl, hname, hplace⟩ := Piece.firstNamed_eq_some h
  have houter := hcut.tokenAt hpiece
  rcases hplace with ⟨rfl, rfl, hnone⟩ | ⟨rfl, ahead, behind, rfl, hahead⟩
  · -- It is the outer token, and no other in the piece has the name.
    refine ⟨hname, houter, hnone, [], [], ?_, by simp, by simp⟩
    have hbody : nested.filter (·.name == name) = [] :=
      List.filter_eq_nil_iff.2 fun u hu => by simpa using hnone u hu
    rw [Piece.tokens, List.filter_cons_of_pos (by simpa using hname), hbody, List.nil_append]
  · -- It stands in the outer token, which comes before it if that has the name.
    obtain ⟨front, -, hnests⟩ := houter.stands
    have hmem : t ∈ ahead ++ t :: behind := List.mem_append_right _ List.mem_cons_self
    refine ⟨hname, hnests.flat t hmem, by simp, [outer].filter (·.name == name),
      behind.filter (·.name == name), ?_, fun u hu => ?_, fun u hu => ?_⟩
    · have hsplit : Piece.tokens (.token outer (ahead ++ t :: behind)) =
          [outer] ++ (ahead ++ t :: behind) := rfl
      have hskipped : ahead.filter (·.name == name) = [] :=
        List.filter_eq_nil_iff.2 fun u hu => by simpa using hahead u hu
      have hfound : (t :: behind).filter (·.name == name) = t :: behind.filter (·.name == name) :=
        List.filter_cons_of_pos (by simpa using hname)
      rw [hsplit, List.filter_append, List.filter_append, hskipped, List.nil_append, hfound]
    · obtain rfl := List.mem_singleton.1 (List.mem_filter.1 hu).1
      exact ⟨hnests.stop_lt hmem, _, hpiece, hmem⟩
    · have hu := (List.mem_filter.1 hu).1
      have hordered := (List.pairwise_append.1 hnests.ordered).2.1
      have hbefore := (List.pairwise_cons.1 hordered).1 u hu
      have hbounds := hnests.bounds (List.mem_append_right _ (List.mem_cons_of_mem _ hu))
      omega

/-- **The lookups agree.**  A text has tokens exactly if it is seen to have any, mentions a name exactly
if it has tokens of it, and exactly then it has one to evaluate next.  That is one of those tokens, with
the tokens in its body, none of which has the name.  In the order of the text, nothing of the name comes
before it but a token that it stands in; and it ends before all others do. -/
theorem lookups_agree (source name : String) :
    (hasTokens source = true ↔ tokens source ≠ []) ∧
    (mentions source name = true ↔ tokensNamed source name ≠ []) ∧
    ((firstNamed source name).isSome = true ↔ tokensNamed source name ≠ []) ∧
    ∀ t nested, firstNamed source name = some (t, nested) →
      TokenAt 0 source.toList t.span.start t nested ∧ (∀ u ∈ nested, u.name ≠ name) ∧
      ∃ before after, tokensNamed source name = before ++ t :: after ∧
        (∀ u ∈ before, ∃ us, .token u us ∈ pieces source ∧ t ∈ us) ∧
        (∀ u ∈ after, t.span.start < u.span.start) ∧
        ∀ u ∈ before ++ after, t.span.stop < u.span.stop := by
  have hcut := cut_pieces source
  have hnamed : tokensNamed source name ≠ [] ↔ ∃ t ∈ tokens source, t.name = name := by
    simp [tokensNamed]
  refine ⟨hasTokens_iff, mentions_iff.trans hnamed.symm, ?_, fun t nested hfirst => ?_⟩
  · rw [Option.isSome_iff_ne_none, ne_eq, firstNamed_eq_none_iff]
  -- No piece before the one that it is found in has a token of the name.
  obtain ⟨ahead, piece, behind, hps, hpiece, hahead⟩ := List.findSome?_eq_some_iff.1 hfirst
  rw [hps] at hcut
  obtain ⟨hname, hat, hbody, before, after, hfilter, hbefore, hafter⟩ :=
    exists_filter_tokens hcut (List.mem_append_right _ List.mem_cons_self) hpiece
  have ht : t ∈ piece.tokens := by
    have : t ∈ piece.tokens.filter (·.name == name) := by
      rw [hfilter]
      exact List.mem_append_right _ List.mem_cons_self
    exact (List.mem_filter.1 this).1
  have hlater : ∀ u ∈ (behind.flatMap Piece.tokens).filter (·.name == name),
      t.span.stop ≤ u.span.start ∧ u.span.start < u.span.stop := fun u hu =>
    hcut.stop_le_of_append ht (List.mem_filter.1 hu).1
  refine ⟨hat, hbody, before, after ++ (behind.flatMap Piece.tokens).filter (·.name == name),
    ?_, fun u hu => ?_, fun u hu => ?_, fun u hu => ?_⟩
  · have hnone : (ahead.flatMap Piece.tokens).filter (·.name == name) = [] := by
      rw [List.filter_flatMap, List.flatMap_eq_nil_iff]
      exact fun q hq => Piece.firstNamed_eq_none_iff.1 (hahead q hq)
    rw [tokensNamed, tokens, hps, List.flatMap_append, List.flatMap_cons, List.filter_append,
      List.filter_append, hnone, hfilter, List.nil_append, List.append_assoc, List.cons_append]
  · rw [hps]
    exact (hbefore u hu).2
  · rcases List.mem_append.1 hu with hu | hu
    · exact (hafter u hu).1
    · have := hlater u hu
      have := hat.bounds
      omega
  · rw [← List.append_assoc] at hu
    rcases List.mem_append.1 hu with hu | hu
    · rcases List.mem_append.1 hu with hu | hu
      · exact (hbefore u hu).1
      · exact (hafter u hu).2
    · have := hlater u hu
      omega

end Stencil.Template
