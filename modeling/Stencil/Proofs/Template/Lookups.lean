import Mathlib.Data.List.Infix
import Stencil.Proofs.Template.Recognition

/-!
# Lookups by Name

`mentions` and `hasTokens` first search the text for the name or for opening braces, which is
cheaper than scanning it.  These searches never change the answer, since a token is written with its
opening braces and its name.

Main statements: `mentions_iff`, `hasTokens_iff` and `firstNamed_eq_none_iff`.
-/

namespace Stencil.Template

open Stencil.Text

/-! ## §1 What a token is written with -/

theorem isInfix_iff {needle cs : List Char} : isInfix needle cs = true ↔ needle <:+: cs := by
  induction cs with
  | nil => simp [isInfix]
  | cons c cs ih => rw [isInfix, Bool.or_eq_true, ih, List.isPrefixOf_iff_prefix, List.infix_cons_iff]

theorem WrittenWith.prefix_name {Body : Nat → List Char → List Token → Prop} {pos : Nat}
    {w : List Char} {t : Token} {nested : List Token} (h : WrittenWith Body pos w t nested) :
    '{' :: '{' :: t.name.toList <+: w := by
  have hfront {front tail : List Char} {name : String} {args : Arguments}
      (header : WrittenHeader front name args) :
      '{' :: '{' :: name.toList <+: '{' :: '{' :: (front ++ tail) := by
    cases header with
    | @intro _ w as _ _ _ _ => simp
  cases h with
  | closed header => exact hfront header
  | body header _ => exact hfront header

theorem infix_of_mem_tokens {source : String} {t : Token} (h : t ∈ tokens source) :
    '{' :: '{' :: t.name.toList <:+: source.toList := by
  obtain ⟨nested, before, w, after, hcs, -, hw⟩ := (cut_pieces source).exists_tokenAt h
  rw [hcs]
  exact hw.prefix_name.isInfix.trans ⟨before, after, by simp⟩

/-! ## §2 Searches -/

theorem mentions_iff {source name : String} :
    mentions source name = true ↔ ∃ t ∈ tokens source, t.name = name := by
  unfold mentions tokensNamed
  constructor
  · intro h
    simpa using (Bool.and_eq_true_iff.1 h).2
  · rintro ⟨t, ht, rfl⟩
    have hwritten := (List.suffix_append ['{', '{'] t.name.toList).isInfix.trans
      (infix_of_mem_tokens ht)
    rw [Bool.and_eq_true, occursIn, isInfix_iff]
    refine ⟨hwritten, ?_⟩
    have hmem : t ∈ (tokens source).filter (·.name == t.name) := List.mem_filter.2 ⟨ht, by simp⟩
    simpa using List.ne_nil_of_mem hmem

theorem any_isToken_iff (ps : List Piece) :
    ps.any Piece.isToken = true ↔ ps.flatMap Piece.tokens ≠ [] := by
  induction ps with
  | nil => simp
  | cons piece ps ih =>
    cases piece with
    | text span => simpa [Piece.isToken, Piece.tokens] using ih
    | token outer nested => simp [Piece.isToken, Piece.tokens]

theorem hasTokens_iff {source : String} : hasTokens source = true ↔ tokens source ≠ [] := by
  rw [hasTokens, Bool.and_eq_true, any_isToken_iff]
  constructor
  · exact fun h => h.2
  · intro h
    obtain ⟨t, ht⟩ := List.exists_mem_of_ne_nil _ h
    refine ⟨isInfix_iff.2 ?_, h⟩
    exact (List.prefix_append ['{', '{'] t.name.toList).isInfix.trans (infix_of_mem_tokens ht)

/-! ## §3 The token that is evaluated next -/

theorem Piece.firstNamed_eq_none_iff {name : String} {piece : Piece} :
    piece.firstNamed name = none ↔ piece.tokens.filter (·.name == name) = [] := by
  cases piece with
  | text span => simp [Piece.firstNamed, Piece.tokens]
  | token outer nested =>
    rw [Piece.firstNamed, Piece.tokens, List.filter_eq_nil_iff, List.forall_mem_cons,
      ← List.find?_eq_none]
    cases nested.find? (·.name == name) with
    | some inner => simp
    | none => simp

/-- The token of a name that is evaluated next in a piece is the outer one, if none in its body has the
name, or else the first one in its body. -/
theorem Piece.firstNamed_eq_some {name : String} {piece : Piece} {t : Token} {nested : List Token}
    (h : piece.firstNamed name = some (t, nested)) : ∃ outer us, piece = .token outer us ∧
      t.name = name ∧ ((t = outer ∧ nested = us ∧ ∀ u ∈ us, u.name ≠ name) ∨
        nested = [] ∧ ∃ ahead behind, us = ahead ++ t :: behind ∧ ∀ u ∈ ahead, u.name ≠ name) := by
  cases piece with
  | text span => exact absurd h (by simp [Piece.firstNamed])
  | token outer us =>
    refine ⟨outer, us, rfl, ?_⟩
    rw [Piece.firstNamed] at h
    split at h
    · rename_i inner hinner
      obtain ⟨rfl, rfl⟩ := Prod.mk.inj (Option.some.inj h)
      obtain ⟨hname, ahead, behind, rfl, hahead⟩ := List.find?_eq_some_iff_append.1 hinner
      exact ⟨by simpa using hname, .inr ⟨rfl, ahead, behind, rfl, by simpa using hahead⟩⟩
    · rename_i hnone
      split at h
      · rename_i hname
        obtain ⟨rfl, rfl⟩ := Prod.mk.inj (Option.some.inj h)
        exact ⟨by simpa using hname, .inl ⟨rfl, rfl, by simpa using hnone⟩⟩
      · exact absurd h (by simp)

theorem name_of_firstNamed {source name : String} {t : Token} {nested : List Token}
    (h : firstNamed source name = some (t, nested)) : t.name = name := by
  obtain ⟨piece, -, hpiece⟩ := List.exists_of_findSome?_eq_some h
  obtain ⟨_, _, -, hname, -⟩ := Piece.firstNamed_eq_some hpiece
  exact hname

theorem mem_tokens_of_firstNamed {source name : String} {t : Token} {nested : List Token}
    (h : firstNamed source name = some (t, nested)) : t ∈ tokens source := by
  obtain ⟨piece, hpiece, hfirst⟩ := List.exists_of_findSome?_eq_some h
  refine List.mem_flatMap.2 ⟨piece, hpiece, ?_⟩
  obtain ⟨outer, us, rfl, -, ⟨rfl, -, -⟩ | ⟨-, ahead, behind, rfl, -⟩⟩ :=
    Piece.firstNamed_eq_some hfirst
  · exact List.mem_cons_self
  · exact List.mem_cons_of_mem _ (List.mem_append_right _ List.mem_cons_self)

theorem firstNamed_eq_none_iff {source name : String} :
    firstNamed source name = none ↔ tokensNamed source name = [] := by
  rw [firstNamed, tokensNamed, tokens, List.filter_flatMap, List.findSome?_eq_none_iff,
    List.flatMap_eq_nil_iff]
  exact forall₂_congr fun _ _ => Piece.firstNamed_eq_none_iff

end Stencil.Template
