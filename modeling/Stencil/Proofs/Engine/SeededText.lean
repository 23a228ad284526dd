import Stencil.Proofs.Engine.Journal
import Stencil.Proofs.Engine.Splices

/-!
# Seeded Templates Read Piece by Piece

`applySeed` lists the edits of all tokens, outer and nested, drops those that start inside one that it
keeps, and splices.  Read piece by piece, with no list of edits in between, this comes to: text stays
as it is, a token with a seeded text gives way to it, and any other token stays with the tokens in its
body replaced that have one.

Main statement: `applySeed_reading`.
-/

namespace Stencil.Template

open Stencil.Text

/-! ## §1 The reading of a piece -/

namespace Piece

/-- The edits in a piece: the token gives way, or else the tokens in its body that have a text. -/
def edits (text? : String → Option String) : Piece → List Edit
  | text _ => []
  | token outer nested =>
    match text? outer.name with
    | some value => [⟨outer.span, value⟩]
    | none => nested.filterMap (Token.edit? text?)

/-- How a piece of a text reads when names stand for texts.  Text is copied.  A token reads as the text
that its name stands for; if there is none it is copied, up to the tokens in its body whose names
stand for one. -/
def reading (text? : String → Option String) (cs : List Char) : Piece → List Char
  | text span => stretch cs span.start span.stop
  | token outer nested =>
    match text? outer.name with
    | some value => value.toList
    | none => fillIn cs outer.span.stop outer.span.start (nested.filterMap (Token.edit? text?))

theorem edits_of_some {text? : String → Option String} {outer : Token} {value : String}
    (h : text? outer.name = some value) (nested : List Token) :
    (token outer nested).edits text? = [⟨outer.span, value⟩] := by
  rw [edits, h]

theorem edits_of_none {text? : String → Option String} {outer : Token}
    (h : text? outer.name = none) (nested : List Token) :
    (token outer nested).edits text? = nested.filterMap (Token.edit? text?) := by
  rw [edits, h]

end Piece

variable {template : String}

theorem marks_of_mem_pieces {piece : Piece} (h : piece ∈ pieces template) :
    Marks template.toList piece.span := by
  obtain ⟨texts, htexts, -⟩ := (cut_pieces template).texts
  obtain ⟨i, hi, rfl⟩ := List.mem_iff_getElem.1 h
  exact (htexts.get hi (htexts.length_eq ▸ hi)).marks
    ((cut_pieces template).tiles.nonempty _ (List.mem_map_of_mem h))

/-- A piece of a template is patched to its reading. -/
theorem patched_piece (text? : String → Option String) {piece : Piece}
    (h : piece ∈ pieces template) :
    Patched piece.span.start (stretch template.toList piece.span.start piece.span.stop)
      (piece.edits text?) (piece.reading text? template.toList) := by
  have hmarks := marks_of_mem_pieces h
  cases piece with
  | text span => exact .refl _ _
  | token outer nested =>
    rw [Piece.edits, Piece.reading]
    cases text? outer.name with
    | some value => exact hmarks.patched value
    | none =>
      obtain ⟨front, -, hnests⟩ := ((cut_pieces template).tokenAt h).stands
      -- The edits are at tokens in the body: on boundaries, within the outer token, and in order.
      refine patched_fillIn hmarks.start hmarks.stop hmarks.nonempty.le ?_ ?_ ?_
      · intro e he
        obtain ⟨t, ht, hsome⟩ := List.mem_filterMap.1 he
        rw [Token.span_of_edit? hsome]
        exact marks_of_mem_tokens (List.mem_flatMap.2 ⟨_, h, List.mem_cons_of_mem _ ht⟩)
      · intro e he
        obtain ⟨t, ht, hsome⟩ := List.mem_filterMap.1 he
        obtain ⟨hstart, -, hstop⟩ := hnests.bounds ht
        rw [Token.span_of_edit? hsome]
        exact ⟨hstart.le, hstop⟩
      · refine List.pairwise_filterMap.2 (hnests.ordered.imp ?_)
        rintro t u ⟨-, hle⟩ e he f hf
        rwa [Token.span_of_edit? he, Token.span_of_edit? hf]

/-! ## §2 The reading of a template -/

/-- Pieces that tile a part of a template patch it to their readings. -/
theorem patched_pieces (text? : String → Option String) {ps : List Piece} {start stop : Nat}
    (hps : ∀ piece ∈ ps, piece ∈ pieces template) (h : Tiles start (ps.map Piece.span) stop)
    (hstop : IsBoundary template.toList stop) :
    Patched start (stretch template.toList start stop) (ps.flatMap (Piece.edits text?))
      (ps.flatMap (Piece.reading text? template.toList)) := by
  induction ps generalizing start with
  | nil =>
    cases h
    rw [stretch_empty]
    exact .nil _
  | cons piece ps ih =>
    obtain ⟨hpiece, hps⟩ := List.forall_mem_cons.1 hps
    have hmarks := marks_of_mem_pieces hpiece
    cases h with
    | cons _ hothers =>
      rw [← stretch_append_stretch hmarks.start hmarks.stop hstop hmarks.nonempty.le
        hothers.bounds.1]
      refine (patched_piece text? hpiece).append ?_
      rw [hmarks.length]
      exact ih hps hothers

end Stencil.Template

namespace Stencil.Engine

open Stencil.Text Template

variable {σ : Type} {template : String}

/-- Of the edits of all tokens of a piece, those are kept that make its reading. -/
theorem keepOuter_piece (text? : String → Option String) {piece : Piece}
    (h : piece ∈ pieces template) {taken : Nat} (htaken : taken ≤ piece.span.start)
    (rest : List Edit) :
    ∃ taken', taken' ≤ piece.span.stop ∧
      keepOuter taken (piece.tokens.filterMap (Token.edit? text?) ++ rest) =
        piece.edits text? ++ keepOuter taken' rest := by
  have hmarks := marks_of_mem_pieces h
  cases piece with
  | text span => exact ⟨taken, htaken.trans hmarks.nonempty.le, rfl⟩
  | token outer nested =>
    rw [Piece.tokens, List.filterMap_cons, Token.edit?]
    cases houter : text? outer.name with
    | some value =>
      -- The token is kept, and the tokens in its body start in the stretch that it takes.
      have hnested : ∀ e ∈ nested.filterMap (Token.edit? text?),
          e.span.start < outer.span.stop := by
        intro e he
        obtain ⟨t, ht, hsome⟩ := List.mem_filterMap.1 he
        obtain ⟨front, -, hnests⟩ := ((cut_pieces template).tokenAt h).stands
        obtain ⟨-, hnonempty, hstop⟩ := hnests.bounds ht
        rw [Token.span_of_edit? hsome]
        omega
      have hkept : ¬(Edit.mk outer.span value).span.start < taken := Nat.not_lt.2 htaken
      refine ⟨outer.span.stop, Nat.le_refl _, ?_⟩
      rw [Option.map_some, Piece.edits_of_some houter, List.cons_append, keepOuter, if_neg hkept,
        keepOuter_of_lt hnested, List.singleton_append]
    | none =>
      -- The edits in its body come one after the other, so none of them is dropped.
      have hpatched := patched_piece text? h
      rw [Piece.edits_of_none houter] at hpatched ⊢
      obtain ⟨taken', hle, hkeep⟩ := keepOuter_append hpatched htaken rest
      exact ⟨taken', hle.trans hmarks.length.le, hkeep⟩

/-- Of the edits of all tokens of pieces, those are kept that make their readings. -/
theorem keepOuter_pieces (text? : String → Option String) {ps : List Piece} {start stop taken : Nat}
    (hps : ∀ piece ∈ ps, piece ∈ pieces template) (h : Tiles start (ps.map Piece.span) stop)
    (htaken : taken ≤ start) :
    keepOuter taken ((ps.flatMap Piece.tokens).filterMap (Token.edit? text?)) =
      ps.flatMap (Piece.edits text?) := by
  induction ps generalizing start taken with
  | nil => rfl
  | cons piece ps ih =>
    obtain ⟨hpiece, htail⟩ := List.forall_mem_cons.1 hps
    cases h with
    | cons _ hothers =>
      obtain ⟨taken', hle, hkeep⟩ := keepOuter_piece text? hpiece htaken
        ((ps.flatMap Piece.tokens).filterMap (Token.edit? text?))
      rw [List.flatMap_cons, List.flatMap_cons, List.filterMap_append, hkeep,
        ih htail hothers hle]

/-! ## §3 What the seed has for a name -/

/-- The seed has a text for a name if the first directive of that name has a primary key, and the
context a value for it that can be used. -/
theorem seedText?_eq_some_iff {order : List (Directive σ)} {ctx : Context} {name s : String} :
    seedText? order ctx name = some s ↔ ∃ before d after key value,
      order = before ++ d :: after ∧ (∀ d' ∈ before, d'.name ≠ name) ∧ d.name = name ∧
        d.resultKeys.head? = some key ∧ ctx.get? key = some value ∧
          (key = Context.inputKey → value ≠ .text "") ∧ s = Context.valueText value := by
  constructor
  · intro h
    obtain ⟨d, hfind, h⟩ := Option.bind_eq_some_iff.1 h
    obtain ⟨key, hkey, h⟩ := Option.bind_eq_some_iff.1 h
    split at h
    · rename_i hresolved
      obtain ⟨value, hvalue, rfl⟩ := Option.map_eq_some_iff.1 h
      obtain ⟨value', hvalue', hinput⟩ := isResolved_iff_exists.1 hresolved
      obtain rfl := Option.some.inj (hvalue.symm.trans hvalue')
      obtain ⟨hname, before, after, horder, hbefore⟩ := List.find?_eq_some_iff_append.1 hfind
      exact ⟨before, d, after, key, value, horder, by simpa using hbefore, by simpa using hname,
        hkey, hvalue, hinput, rfl⟩
    · exact absurd h (by simp)
  · rintro ⟨before, d, after, key, value, rfl, hbefore, rfl, hkey, hvalue, hinput, rfl⟩
    have hresolved : ctx.isResolved key = true := isResolved_iff_exists.2 ⟨value, hvalue, hinput⟩
    have htext : ctx.text? key = some (Context.valueText value) := by
      rw [Context.text?, hvalue, Option.map_some]
    rw [seedText?, find?_append_cons hbefore]
    simp [hkey, hresolved, htext]

/-! ## §4 The reading of a template -/

/-- **Replacing seeded values is reading the template piece by piece.**  Text is copied; a token whose
directive's primary key is resolved in the context gives way to the text of its value; any other token
is copied with the tokens in its body replaced that have such a text.  Nothing else changes.  Of several
directives of one name the first counts, and no text for the user's input is no value. -/
theorem applySeed_reading (order : List (Directive σ)) (ctx : Context) (template : String) :
    (applySeed order ctx template).toList =
      (pieces template).flatMap (Piece.reading (seedText? order ctx) template.toList) ∧
    Patched 0 template.toList ((pieces template).flatMap (Piece.edits (seedText? order ctx)))
      (applySeed order ctx template).toList ∧
    ∀ name s, seedText? order ctx name = some s ↔ ∃ before d after key value,
      order = before ++ d :: after ∧ (∀ d' ∈ before, d'.name ≠ name) ∧ d.name = name ∧
        d.resultKeys.head? = some key ∧ ctx.get? key = some value ∧
          (key = Context.inputKey → value ≠ .text "") ∧ s = Context.valueText value := by
  have htiles := (cut_pieces template).tiles
  rw [Nat.zero_add] at htiles
  have hpatched := patched_pieces (seedText? order ctx) (fun _ hpiece => hpiece) htiles
    (isBoundary_byteLength template.toList)
  rw [stretch_self] at hpatched
  have hseed : applySeed order ctx template =
      .ofList ((pieces template).flatMap (Piece.reading (seedText? order ctx) template.toList)) := by
    rw [applySeed, seededEdit?_eq_edit?, tokens,
      keepOuter_pieces _ (fun _ hpiece => hpiece) htiles (Nat.le_refl 0)]
    exact splice_eq_of_patched hpatched
  rw [hseed, String.toList_ofList]
  exact ⟨rfl, hpatched, fun _ _ => seedText?_eq_some_iff⟩

end Stencil.Engine
