import Stencil.Custom
import Stencil.Proofs.Text.Parts

/-!
# The Gaps of a Placeholder

A text with gaps is a list of segments: stretches that stand for themselves, gaps for the words of a
token, and gaps for its body.  Which segments it has is said here by the text alone, without a token
and without the scan that fills gaps.  What a placeholder expands to is its segments one after the
other, each with what the token puts in; so a dollar sign that a token brings along is never taken for
a gap.

Main statement: `expand_segmented`.
-/

namespace Stencil.Custom

open Template Text

/-! ## §1 Segments -/

/-- A part of a text with gaps. -/
inductive Segment where
  /-- Text that stands for itself. -/
  | literal (cs : List Char)
  /-- The gap for the word at a position, counted from one. -/
  | word (position : Nat)
  /-- The gap for the body. -/
  | body
  deriving DecidableEq, Repr

namespace Segment

/-- A segment as it is written. -/
def chars : Segment → List Char
  | literal cs => cs
  | word position => ['$', Nat.digitChar position]
  | body => '$' :: bodyMark

/-- What a token puts in the place of a segment. -/
def fill (token : Token) : Segment → List Char
  | literal cs => cs
  | word position => ((token.args.word? (position - 1)).getD "").toList
  | body => token.bodyText.toList

end Segment

/-- Whether no digit stands at the start of a text, so that a run of digits before it ends there. -/
def NoDigit (rest : List Char) : Prop := ∀ c ∈ rest.head?, c.isDigit = false

/-- Whether a run of digits stands for the word at a position: it is that one digit, and not zero. -/
def IsWord (position : Nat) (digits : List Char) : Prop :=
  1 ≤ position ∧ position ≤ 9 ∧ digits = [Nat.digitChar position]

/-- The segments of a text, from left to right.  A dollar sign is a gap if the mark of the body or
exactly one digit other than zero follows; otherwise it stands for itself, with all digits after it. -/
inductive Segmented : List Char → List Segment → Prop
  /-- Nothing. -/
  | nil : Segmented [] []
  /-- A character other than a dollar sign. -/
  | char {c : Char} {rest : List Char} {others : List Segment} (dollar : c ≠ '$')
      (h : Segmented rest others) : Segmented (c :: rest) (.literal [c] :: others)
  /-- The gap for the body. -/
  | body {rest : List Char} {others : List Segment} (h : Segmented rest others) :
      Segmented ('$' :: (bodyMark ++ rest)) (.body :: others)
  /-- The gap for a word. -/
  | word {position : Nat} {digits rest : List Char} {others : List Segment}
      (isWord : IsWord position digits) (last : NoDigit rest) (h : Segmented rest others) :
      Segmented ('$' :: (digits ++ rest)) (.word position :: others)
  /-- A dollar sign that is no gap, and the digits after it. -/
  | dollar {digits rest : List Char} {others : List Segment}
      (run : ∀ c ∈ digits, c.isDigit = true) (last : NoDigit rest)
      (noBody : ¬bodyMark <+: digits ++ rest) (noWord : ∀ position, ¬IsWord position digits)
      (h : Segmented rest others) :
      Segmented ('$' :: (digits ++ rest)) (.literal ('$' :: digits) :: others)

theorem Segmented.flatMap_chars {cs : List Char} {segments : List Segment} (h : Segmented cs segments) :
    segments.flatMap Segment.chars = cs := by
  induction h with
  | nil => rfl
  | char _ _ ih => exact congrArg (_ :: ·) ih
  | body _ ih => exact congrArg ('$' :: bodyMark ++ ·) ih
  | word isWord _ _ ih =>
    obtain ⟨-, -, rfl⟩ := isWord
    exact congrArg (['$', _] ++ ·) ih
  | dollar _ _ _ _ _ ih => exact congrArg ('$' :: _ ++ ·) ih

/-! ## §2 Runs of digits -/

theorem exists_digitChar {c : Char} (h : c.isDigit = true) : ∃ n, n ≤ 9 ∧ c = Nat.digitChar n := by
  have hall : ∀ k, k ≤ 9 → Char.ofNat (48 + k) = Nat.digitChar k := by decide
  simp only [Char.isDigit, Bool.and_eq_true, decide_eq_true_eq, ge_iff_le,
    UInt32.le_iff_toNat_le] at h
  change 48 ≤ c.toNat ∧ c.toNat ≤ 57 at h
  refine ⟨c.toNat - 48, by omega, ?_⟩
  rw [← hall _ (by omega), Nat.add_sub_cancel' h.1, Char.ofNat_toNat]

theorem nat64?_digitChar {n : Nat} (h : n ≤ 9) : nat64? [Nat.digitChar n] = some n := by
  revert n
  decide

theorem IsWord.isDigit {position : Nat} {digits : List Char} (h : IsWord position digits) :
    ∀ c ∈ digits, c.isDigit = true := by
  obtain ⟨-, hnine, rfl⟩ := h
  have hall : ∀ n, n ≤ 9 → (Nat.digitChar n).isDigit = true := by decide
  simpa using hall position hnine

theorem takeWhile_run {digits rest : List Char} (hrun : ∀ c ∈ digits, c.isDigit = true)
    (hlast : NoDigit rest) :
    (digits ++ rest).takeWhile Char.isDigit = digits ∧
      (digits ++ rest).dropWhile Char.isDigit = rest := by
  rw [List.takeWhile_append_of_pos hrun, List.dropWhile_append_of_pos hrun]
  cases rest with
  | nil => simp
  | cons c rest =>
    have hc : c.isDigit = false := hlast c rfl
    simp [hc]

theorem noDigit_dropWhile (cs : List Char) : NoDigit (cs.dropWhile Char.isDigit) := by
  intro c hc
  have hnot := List.head?_dropWhile_not Char.isDigit cs
  rw [Option.mem_def.1 hc] at hnot
  simpa using hnot

/-- What is put in for a run of digits: the word it stands for, if there is one, and otherwise the run
as it is. -/
def Segment.ofRun (digits : List Char) : Segment :=
  match nat64? digits with
  | some position =>
    if digits.length = 1 ∧ 1 ≤ position then .word position else .literal ('$' :: digits)
  | none => .literal ('$' :: digits)

theorem Segment.fill_ofRun (token : Token) (digits : List Char) :
    (ofRun digits).fill token = wordOrDigits token digits := by
  unfold ofRun wordOrDigits
  cases nat64? digits with
  | none => rfl
  | some position => exact apply_ite (fill token) _ _ _

theorem Segment.ofRun_of_isWord {position : Nat} {digits : List Char} (h : IsWord position digits) :
    ofRun digits = .word position := by
  obtain ⟨hone, hnine, rfl⟩ := h
  simp [ofRun, nat64?_digitChar hnine, hone]

theorem Segment.ofRun_of_not_isWord {digits : List Char} (hrun : ∀ c ∈ digits, c.isDigit = true)
    (h : ∀ position, ¬IsWord position digits) : ofRun digits = .literal ('$' :: digits) := by
  unfold ofRun
  split
  · rename_i position hread
    refine if_neg ?_
    rintro ⟨hlength, hone⟩
    obtain ⟨d, rfl⟩ := List.length_eq_one_iff.1 hlength
    obtain ⟨n, hnine, rfl⟩ := exists_digitChar (hrun d List.mem_cons_self)
    rw [nat64?_digitChar hnine] at hread
    exact h n ⟨Option.some.inj hread ▸ hone, hnine, rfl⟩
  · rfl

/-! ## §3 Filling gaps, segment by segment -/

/-- The segments of a text. -/
def segments (cs : List Char) : List Segment :=
  match cs with
  | [] => []
  | c :: rest =>
    if c = '$' then
      if bodyMark.isPrefixOf rest then .body :: segments (rest.drop bodyMark.length)
      else .ofRun (rest.takeWhile Char.isDigit) :: segments (rest.dropWhile Char.isDigit)
    else .literal [c] :: segments rest
  termination_by cs.length
  decreasing_by
    · simp only [List.length_drop, List.length_cons]; omega
    · have := (List.dropWhile_sublist Char.isDigit (l := rest)).length_le
      simp only [List.length_cons]; omega
    · simp

section Filling

variable (token : Token)

theorem fillGaps_of_none {cs : List Char} (h : splitOnce '$' cs = none) : fillGaps token cs = cs := by
  rw [fillGaps]
  split
  · rfl
  · rename_i hsome
    rw [h] at hsome
    exact absurd hsome (by simp)

theorem fillGaps_of_some {cs before after : List Char}
    (h : splitOnce '$' cs = some (before, after)) :
    fillGaps token cs = before ++ if bodyMark.isPrefixOf after then
        token.bodyText.toList ++ fillGaps token (after.drop bodyMark.length)
      else wordOrDigits token (after.takeWhile Char.isDigit) ++
        fillGaps token (after.dropWhile Char.isDigit) := by
  rw [fillGaps]
  split
  · rename_i hnone
    rw [h] at hnone
    exact absurd hnone (by simp)
  · rename_i hsome
    rw [h] at hsome
    cases hsome
    split <;> simp only [List.append_assoc]

theorem fillGaps_cons_of_ne {c : Char} (hc : c ≠ '$') (rest : List Char) :
    fillGaps token (c :: rest) = c :: fillGaps token rest := by
  have hsplit := splitOnce_cons_of_ne hc rest
  cases hrest : splitOnce '$' rest with
  | none =>
    rw [hrest] at hsplit
    rw [fillGaps_of_none token hsplit, fillGaps_of_none token hrest]
  | some parts =>
    rw [hrest] at hsplit
    rw [fillGaps_of_some token hsplit, fillGaps_of_some token hrest]
    rfl

/-- Filling the gaps of a text is putting in something for each of its segments. -/
theorem fillGaps_eq (cs : List Char) : fillGaps token cs = (segments cs).flatMap (Segment.fill token) := by
  fun_induction segments cs with
  | case1 => exact fillGaps_of_none token rfl
  | case2 rest hbody ih =>
    rw [fillGaps_of_some token (splitOnce_cons_self '$' rest), if_pos hbody, ih]
    rfl
  | case3 rest hbody ih =>
    rw [fillGaps_of_some token (splitOnce_cons_self '$' rest), if_neg hbody, ih,
      ← Segment.fill_ofRun]
    rfl
  | case4 c rest hc ih =>
    rw [fillGaps_cons_of_ne token hc, ih]
    rfl

end Filling

/-! ## §4 The segments of a text -/

/-- These are segments of the text. -/
theorem segmented_segments (cs : List Char) : Segmented cs (segments cs) := by
  fun_induction segments cs with
  | case1 => exact .nil
  | case2 rest hbody ih =>
    obtain ⟨tail, rfl⟩ := List.isPrefixOf_iff_prefix.1 hbody
    rw [List.drop_left] at ih ⊢
    exact .body ih
  | case3 rest hbody ih =>
    -- A sign and all the digits behind it: they name a word or stand for themselves.
    have hrun : ∀ c ∈ rest.takeWhile Char.isDigit, c.isDigit = true :=
      fun _ => List.mem_takeWhile_imp
    have hlast := noDigit_dropWhile rest
    have hnoBody : ¬bodyMark <+: rest := fun h => hbody (List.isPrefixOf_iff_prefix.2 h)
    rw [← List.takeWhile_append_dropWhile (p := Char.isDigit) (l := rest)] at hnoBody
    conv_lhs => rw [← List.takeWhile_append_dropWhile (p := Char.isDigit) (l := rest)]
    by_cases hword : ∃ position, IsWord position (rest.takeWhile Char.isDigit)
    · obtain ⟨position, hword⟩ := hword
      rw [Segment.ofRun_of_isWord hword]
      exact .word hword hlast ih
    · have hnoWord := not_exists.1 hword
      rw [Segment.ofRun_of_not_isWord hrun hnoWord]
      exact .dollar hrun hlast hnoBody hnoWord ih
  | case4 c rest hc ih => exact .char hc ih

theorem IsWord.not_bodyMark {position : Nat} {digits : List Char} (h : IsWord position digits)
    (rest : List Char) : ¬bodyMark <+: digits ++ rest := by
  have hdigit := h.isDigit
  obtain ⟨-, -, rfl⟩ := h
  rintro ⟨tail, htail⟩
  have hb := hdigit _ List.mem_cons_self
  rw [← (List.cons.inj htail).1] at hb
  exact absurd hb (by decide)

/-- A dollar sign and a run of digits that are not the gap for the body are one segment. -/
theorem segments_run {digits rest : List Char} (hrun : ∀ c ∈ digits, c.isDigit = true)
    (hlast : NoDigit rest) (hnoBody : ¬bodyMark <+: digits ++ rest) :
    segments ('$' :: (digits ++ rest)) = .ofRun digits :: segments rest := by
  obtain ⟨htake, hdrop⟩ := takeWhile_run hrun hlast
  rw [segments, if_pos rfl, if_neg (by rwa [List.isPrefixOf_iff_prefix]), htake, hdrop]

/-- It has no others. -/
theorem Segmented.eq_segments {cs : List Char} {segs : List Segment} (h : Segmented cs segs) :
    segs = segments cs := by
  induction h with
  | nil => rw [segments]
  | char hc _ ih => rw [segments, if_neg hc, ih]
  | @body rest _ _ ih =>
    have hbody : bodyMark.isPrefixOf (bodyMark ++ rest) = true :=
      List.isPrefixOf_iff_prefix.2 (List.prefix_append _ _)
    rw [segments, if_pos rfl, if_pos hbody, List.drop_left, ih]
  | word hword hlast _ ih =>
    rw [segments_run hword.isDigit hlast (hword.not_bodyMark _), Segment.ofRun_of_isWord hword, ih]
  | dollar hrun hlast hnoBody hnoWord _ ih =>
    rw [segments_run hrun hlast hnoBody, Segment.ofRun_of_not_isWord hrun hnoWord, ih]

/-- **Expansion is one substitution.**  Every text with gaps has segments, which are determined by the text
alone and are, as they are written, the text.  For every token, the placeholder with that text expands to
the segments one after the other: the stretches that stand for themselves as they are, the body of the
token for each of its gaps, and for each gap for a word the word at that position, or nothing if there is
none.  What the token puts in is there as it is. -/
theorem expand_segmented (value : String) :
    ∃ segs, Segmented value.toList segs ∧ (∀ segs', Segmented value.toList segs' → segs' = segs) ∧
      segs.flatMap Segment.chars = value.toList ∧
      ∀ (name : String) (description : Option String) (constant : Bool) (token : Token),
        (Placeholder.expand ⟨name, value, description, constant⟩ token).toList =
          segs.flatMap (Segment.fill token) := by
  have hsegs := segmented_segments value.toList
  refine ⟨segments value.toList, hsegs, fun _ h => h.eq_segments, hsegs.flatMap_chars, ?_⟩
  intro name description constant token
  rw [Placeholder.expand, String.toList_ofList, fillGaps_eq]

/-- A doubled dollar sign, too many digits, a zero and the mark of the body twice. -/
example : segments "$$1$10$0$bodybody".toList =
    [.literal ['$'], .word 1, .literal ['$', '1', '0'], .literal ['$', '0'], .body, .literal ['b'],
      .literal ['o'], .literal ['d'], .literal ['y']] := by
  decide +kernel

end Stencil.Custom
