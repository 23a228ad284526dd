import Stencil.Engine
import Stencil.Proofs.Template.Edits
import Stencil.Proofs.Engine.Stepping

/-!
# The Splices of a Rendering

A rendering changes its text by splices alone: the result of a directive is put in the place of a
token, or of all that are written alike, and seeded values in the place of the outermost tokens that
have one.  The edits of these splices are legal, so each splice replaces all its stretches at once.

Main statement: `splices_legal`.
-/

namespace Stencil.Engine

open Stencil.Text Template

variable {σ : Type}

/-! ## §1 Results -/

theorem legal_tokensNamed (source name raw result : String) :
    Legal source.toList
      (((tokensNamed source name).filter (·.raw == raw)).map fun t => ⟨t.span, result⟩) := by
  rw [tokensNamed, List.filter_filter]
  refine legal_alike source _ raw (fun t ht => ?_) result
  rw [Bool.and_eq_true, beq_iff_eq] at ht
  exact ht.1

theorem legal_editsFor (d : Directive σ) {source : String} {token : Token}
    (h : token ∈ tokens source) (result : String) :
    Legal source.toList (editsFor d source token result) := by
  rw [editsFor]
  split
  · exact legal_tokensNamed source d.name token.raw result
  · refine ⟨fun e he => ?_, List.pairwise_singleton _ _⟩
    obtain rfl := List.mem_singleton.1 he
    exact marks_of_mem_tokens h

/-! ## §2 Seeded values -/

/-- The edit of a token that has a seeded value puts in its place what the seed has for its name. -/
theorem seededEdit?_eq_edit? (order : List (Directive σ)) (ctx : Context) :
    seededEdit? order ctx = Token.edit? (seedText? order ctx) :=
  funext fun t => seededEdit?_eq order ctx t

theorem starts_seededEdits (order : List (Directive σ)) (ctx : Context) (template : String) :
    ((tokens template).filterMap (seededEdit? order ctx)).Pairwise
      fun e f => e.span.start < f.span.start := by
  rw [seededEdit?_eq_edit?]
  refine List.pairwise_filterMap.2 ((cut_pieces template).pairwise_tokens.imp ?_)
  rintro t u ⟨hlt, -⟩ e he f hf
  rwa [Token.span_of_edit? he, Token.span_of_edit? hf]

theorem keepOuter_sublist (taken : Nat) (edits : List Edit) :
    (keepOuter taken edits).Sublist edits := by
  induction edits generalizing taken with
  | nil => exact .slnil
  | cons e edits ih =>
    rw [keepOuter]
    split
    · exact (ih taken).cons e
    · exact (ih e.span.stop).cons_cons e

theorem le_start_of_mem_keepOuter {taken : Nat} {edits : List Edit}
    (h : ∀ e ∈ edits, e.span.start ≤ e.span.stop) :
    ∀ e ∈ keepOuter taken edits, taken ≤ e.span.start := by
  induction edits generalizing taken with
  | nil => exact fun _ he => absurd he List.not_mem_nil
  | cons e edits ih =>
    have htail : ∀ f ∈ edits, f.span.start ≤ f.span.stop :=
      fun f hf => h f (List.mem_cons_of_mem _ hf)
    rw [keepOuter]
    split
    · exact ih htail
    · -- What is kept after `e` starts behind its end, and so behind its start.
      intro f hf
      rcases List.mem_cons.1 hf with rfl | hf
      · omega
      · have hnext := ih htail f hf
        have hspan := h e List.mem_cons_self
        omega

theorem pairwise_keepOuter {taken : Nat} {edits : List Edit}
    (h : ∀ e ∈ edits, e.span.start ≤ e.span.stop) :
    (keepOuter taken edits).Pairwise fun e f => e.span.stop ≤ f.span.start := by
  induction edits generalizing taken with
  | nil => exact .nil
  | cons e edits ih =>
    have htail : ∀ f ∈ edits, f.span.start ≤ f.span.stop :=
      fun f hf => h f (List.mem_cons_of_mem _ hf)
    rw [keepOuter]
    split
    · exact ih htail
    · exact .cons (le_start_of_mem_keepOuter htail) (ih htail)

theorem legal_seededEdits (order : List (Directive σ)) (ctx : Context) (template : String) :
    Legal template.toList
      (keepOuter 0 ((tokens template).filterMap (seededEdit? order ctx))) := by
  have hmarks : ∀ e ∈ (tokens template).filterMap (seededEdit? order ctx),
      Marks template.toList e.span := by
    intro e he
    obtain ⟨t, ht, hsome⟩ := List.mem_filterMap.1 he
    rw [seededEdit?_eq_edit?] at hsome
    rw [Token.span_of_edit? hsome]
    exact marks_of_mem_tokens ht
  refine ⟨fun e he => hmarks e ((keepOuter_sublist 0 _).subset he), ?_⟩
  exact (pairwise_keepOuter fun e he => (hmarks e he).nonempty.le).imp Or.inl

/-! ## §3 Legal splices -/

/-- **Splicing is simultaneous replacement, and a rendering only makes legal splices.**  Of a text and
legal edits for it, listed in any order, splicing makes the text with every stretch of an edit replaced
and all else kept; it never cuts where there is no stretch of the text.  The edits that put a result
in the place of all tokens of a name that are written alike are legal, and so are those for any token
of the text that a directive is evaluated for.  Those for seeded values come in the order of the text,
and the ones that are kept are legal, whatever the directives and the context. -/
theorem splices_legal (source : String) :
    (∀ edits, Legal source.toList edits →
      (∃ ordered, edits.Perm ordered ∧
        Patched 0 source.toList ordered (splice source edits).toList) ∧
      ∀ listed, listed.Perm edits → splice source listed = splice source edits ∧
        spliceChecked source listed = some (splice source edits)) ∧
    (∀ name raw result, Legal source.toList
      (((tokensNamed source name).filter (·.raw == raw)).map fun t => ⟨t.span, result⟩)) ∧
    (∀ (d : Directive σ) (token : Token) (result : String), token ∈ tokens source →
      Legal source.toList (editsFor d source token result)) ∧
    ∀ (order : List (Directive σ)) (ctx : Context),
      (((tokens source).filterMap (seededEdit? order ctx)).Pairwise
        fun e f => e.span.start < f.span.start) ∧
      Legal source.toList (keepOuter 0 ((tokens source).filterMap (seededEdit? order ctx))) := by
  refine ⟨fun edits hlegal => ?_, legal_tokensNamed source,
    fun d token result htoken => legal_editsFor d htoken result, fun order ctx =>
      ⟨starts_seededEdits order ctx source, legal_seededEdits order ctx source⟩⟩
  obtain ⟨ordered, hperm, hpatched⟩ := hlegal.exists_patched
  have hsplice := splice_eq_of_perm hpatched hperm
  refine ⟨⟨ordered, hperm, ?_⟩, fun listed hlisted => ⟨?_, ?_⟩⟩
  · rwa [hsplice, String.toList_ofList]
  · rw [hsplice, splice_eq_of_perm hpatched (hlisted.trans hperm)]
  · rw [hsplice, spliceChecked_eq_of_perm hpatched (hlisted.trans hperm)]

/-- Two edits that are listed against the order of the text, on both sides of a character of two
bytes, and the result of a constant directive for tokens that are written alike. -/
theorem splices_legal_listed :
    let source := "{{a}}é{{a}}"
    let edits : List Edit := [⟨⟨0, 5⟩, "one"⟩, ⟨⟨7, 12⟩, "two"⟩]
    let d : Directive Unit := ⟨"a", "", [], [], true, fun _ _ s => .ok .empty s⟩
    splice source edits.reverse = "oneétwo" ∧ spliceChecked source edits.reverse = some "oneétwo" ∧
      ∃ token ∈ tokens source, Legal source.toList (editsFor d source token "") := by
  intro source edits d
  have hlegal : Legal source.toList edits := by decide +kernel
  have hsplice : splice source edits = "oneétwo" :=
    (splice_pair source (by decide)).trans (by decide +kernel)
  obtain ⟨hall, -, hresults, -⟩ := splices_legal (σ := Unit) source
  obtain ⟨-, hlisted⟩ := hall edits hlegal
  obtain ⟨hsame, hchecked⟩ := hlisted _ edits.reverse_perm
  have hmem : (tokens source).get ⟨0, by decide +kernel⟩ ∈ tokens source := List.get_mem _ _
  exact ⟨hsame.trans hsplice, hsplice ▸ hchecked, _, hmem, hresults d _ "" hmem⟩

end Stencil.Engine
