import Mathlib.Data.List.TakeWhile
import Mathlib.Order.Bounds.Basic
import Stencil.Process.Basic
import Stencil.Proofs.Text.Utf8

/-!
# The Text of an Output

A program that succeeds comes to the text of its output.  What the output reads as loses the line ends
it closes with; if it is then longer than the limit, it is cut at the last boundary of a character within
the limit.  The search for that boundary goes back from the limit one byte at a time.  Since boundaries
are at most four bytes apart, it takes at most three steps and stays far from the start.

Main statements: `isGreatest_boundaryBack?`, `LongestStart.lt_add_four` and `capture_longest_start`.
-/

namespace Stencil.Process

/-! ## §1 Boundaries -/

/-- Boundaries are at most four bytes apart. -/
theorem exists_boundary {text : String} {n : Nat} (h : n ≤ text.utf8ByteSize) :
    ∃ m, m ≤ n ∧ n < m + 4 ∧ (String.Pos.Raw.mk m).IsValid text := by
  induction text using String.push_induction with
  | empty => exact ⟨0, Nat.zero_le _, by simp at h; omega, String.Pos.Raw.isValid_zero⟩
  | push text c ih =>
    rw [String.utf8ByteSize_push] at h
    have hsize := c.utf8Size_le_four
    rcases Nat.lt_or_ge text.utf8ByteSize n with hlt | hle
    · -- Behind the text there is only the last character.
      rcases Nat.lt_or_eq_of_le h with hinside | rfl
      · exact ⟨text.utf8ByteSize, hlt.le, by omega,
          String.Pos.Raw.isValid_push.2 (.inl String.Pos.Raw.isValid_rawEndPos)⟩
      · exact ⟨_, Nat.le_refl _, by omega, String.Pos.Raw.isValid_push.2 (.inr rfl)⟩
    · obtain ⟨m, hm, hn, hvalid⟩ := ih hle
      exact ⟨m, hm, hn, String.Pos.Raw.isValid_push.2 (.inl hvalid)⟩

/-- **A search back finds the last boundary.** -/
theorem isGreatest_boundaryBack? {text : String} {cut : Nat} {p : text.Pos}
    (h : boundaryBack? text cut = some p) :
    IsGreatest {n | n ≤ cut ∧ (String.Pos.Raw.mk n).IsValid text} p.offset.byteIdx := by
  fun_induction boundaryBack? text cut with
  | case1 cut hvalid =>
    cases h
    exact ⟨⟨Nat.le_refl _, hvalid⟩, fun n hn => hn.1⟩
  | case2 => exact absurd h (by simp)
  | case3 cut hnot ih =>
    obtain ⟨⟨hle, hvalid⟩, hgreatest⟩ := ih h
    refine ⟨⟨hle.trans (Nat.le_succ _), hvalid⟩, fun n ⟨hn, hboundary⟩ => hgreatest ⟨?_, hboundary⟩⟩
    rcases Nat.lt_or_eq_of_le hn with hlt | rfl
    · exact Nat.le_of_lt_succ hlt
    · exact absurd hboundary hnot

/-! ## §2 Cuts -/

/-- Whether a text is the longest start of another that ends at a boundary of a character within a
limit. -/
structure LongestStart (limit : Nat) (whole text : String) : Prop where
  /-- It is a start. -/
  start : ∃ rest, whole = text ++ rest
  /-- It ends at the last boundary within the limit. -/
  longest : IsGreatest {n | n ≤ limit ∧ (String.Pos.Raw.mk n).IsValid whole} text.utf8ByteSize

theorem clip_of_le {limit : Nat} {text : String} (h : text.utf8ByteSize ≤ limit) :
    clip limit text = text :=
  if_neg (Nat.not_lt.2 h)

/-- A text that is too long is cut where the search back ends. -/
theorem exists_boundaryBack?_clip {limit : Nat} {text : String} (h : limit < text.utf8ByteSize) :
    ∃ p, boundaryBack? text limit = some p ∧ p.offset.byteIdx = (clip limit text).utf8ByteSize ∧
      LongestStart limit text (clip limit text) := by
  obtain ⟨p, hp⟩ := Option.isSome_iff_exists.1 (isSome_boundaryBack? text limit)
  have hclip : clip limit text = (text.sliceTo p).copy := by
    rw [clip, if_pos h]
    simp only [hp, Option.get_some]
  have hsize : p.offset.byteIdx = (clip limit text).utf8ByteSize := by
    rw [hclip, p.splits.offset_eq_rawEndPos]
    rfl
  refine ⟨p, hp, hsize, ⟨(text.sliceFrom p).copy, ?_⟩, ?_⟩
  · rw [hclip]
    exact p.splits.eq_append
  · rw [← hsize]
    exact isGreatest_boundaryBack? hp

/-- A cut gives up less than a character. -/
theorem LongestStart.lt_add_four {limit : Nat} {whole text : String}
    (h : LongestStart limit whole text) (hlimit : limit ≤ whole.utf8ByteSize) :
    limit < text.utf8ByteSize + 4 := by
  obtain ⟨m, hm, hlt, hvalid⟩ := exists_boundary hlimit
  have hle := h.longest.2 ⟨hm, hvalid⟩
  omega

/-- The longest start ends where the next character is too long. -/
theorem LongestStart.eq_of_push {limit : Nat} {front text rest : String} {c : Char}
    (h : LongestStart limit (front.push c ++ rest) text) (hfront : front.utf8ByteSize ≤ limit)
    (hnext : limit < front.utf8ByteSize + c.utf8Size) : text = front := by
  obtain ⟨⟨rest', hrest⟩, ⟨hle, hvalid⟩, hgreatest⟩ := h
  have hge : front.utf8ByteSize ≤ text.utf8ByteSize := hgreatest
    ⟨hfront, .append_right (String.Pos.Raw.isValid_push.2 (.inl String.Pos.Raw.isValid_rawEndPos)) rest⟩
  -- A boundary that is not within the front is at least one character behind it, beyond the limit.
  have hle' : text.utf8ByteSize ≤ front.utf8ByteSize := by
    rcases String.Pos.Raw.isValid_append.1 hvalid with hpush | ⟨hbehind, -⟩
    · rcases String.Pos.Raw.isValid_push.1 hpush with hinside | hend
      · exact hinside.le_utf8ByteSize
      · have hsize : text.utf8ByteSize = front.utf8ByteSize + c.utf8Size :=
          congrArg String.Pos.Raw.byteIdx hend
        omega
    · have hsize : (front.push c).utf8ByteSize ≤ text.utf8ByteSize := hbehind
      rw [String.utf8ByteSize_push] at hsize
      omega
  have happend : text ++ rest' = front ++ (String.singleton c ++ rest) := by
    rw [← hrest, ← String.append_assoc, String.append_singleton]
  have hbytes := congrArg String.toByteArray happend
  rw [String.toByteArray_append, String.toByteArray_append] at hbytes
  exact String.toByteArray_inj.1 ((ByteArray.append_eq_append_iff_of_size_eq_left
    (Nat.le_antisymm hle' hge)).1 hbytes).1

/-! ## §3 Line ends -/

/-- Whether a text is another one without the line ends that this closes with. -/
structure WithoutLineEnds (whole text : String) : Prop where
  /-- Only line ends are missing. -/
  ends : ∃ ends, whole = text ++ ends ∧ ∀ c ∈ ends.toList, c = '\n' ∨ c = '\r'
  /-- It does not close with one. -/
  last : ∀ c ∈ text.toList.getLast?, ¬(c = '\n' ∨ c = '\r')

theorem isLineEnd_iff {c : Char} : isLineEnd c = true ↔ c = '\n' ∨ c = '\r' := by
  simp [isLineEnd]

/-- The whole text of an output is what it reads as, without the line ends at its end. -/
theorem withoutLineEnds_wholeText (octets : ByteArray) :
    WithoutLineEnds (Text.Utf8.decodeLossy octets) (wholeText octets) where
  ends := by
    refine ⟨.ofList ((Text.Utf8.decodeReversed octets).takeWhile isLineEnd).reverse, ?_, fun c hc => ?_⟩
    · rw [wholeText, ← String.ofList_append, ← List.reverse_append, List.takeWhile_append_dropWhile]
      rfl
    · rw [String.toList_ofList, List.mem_reverse] at hc
      exact isLineEnd_iff.1 (List.mem_takeWhile_imp hc)
  last c hc := by
    rw [wholeText, String.toList_ofList, List.getLast?_reverse] at hc
    have hnot := List.head?_dropWhile_not isLineEnd (Text.Utf8.decodeReversed octets)
    rw [Option.mem_def.1 hc] at hnot
    rw [← isLineEnd_iff, Bool.not_eq_true]
    exact hnot

theorem WithoutLineEnds.unique {whole text text' : String} (h : WithoutLineEnds whole text)
    (h' : WithoutLineEnds whole text') : text = text' := by
  -- Where one were longer, it would close with a line end of the other.
  have hshorter {t e t' e' : List Char} (heq : t ++ e = t' ++ e')
      (hends : ∀ c ∈ e, c = '\n' ∨ c = '\r')
      (hlast : ∀ c ∈ t'.getLast?, ¬(c = '\n' ∨ c = '\r')) : t'.length ≤ t.length := by
    rcases List.append_eq_append_iff.1 heq with ⟨more, rfl, rfl⟩ | ⟨more, rfl, -⟩
    · rcases List.eq_nil_or_concat more with rfl | ⟨more, c, rfl⟩
      · simp
      · exact absurd (hends c (by simp)) (hlast c (by simp))
    · simp
  obtain ⟨ends, hwhole, hends⟩ := h.ends
  obtain ⟨ends', hwhole', hends'⟩ := h'.ends
  have heq : text.toList ++ ends.toList = text'.toList ++ ends'.toList := by
    rw [← String.toList_append, ← String.toList_append, ← hwhole, ← hwhole']
  exact String.toList_inj.1 (List.append_inj_left heq
    (Nat.le_antisymm (hshorter heq.symm hends' h.last) (hshorter heq hends h'.last)))

/-! ## §4 Runs -/

/-- A run of a program that succeeds comes to the text of its output. -/
theorem capture_of_success {runner : Runner} {command : Command} {env : Environment} {now : Moment}
    {limit : Option Nat} {files files' : Files.Tree} {completed : Completed}
    (hrun : runner command env now files = .ok (completed, files')) (hcode : completed.code = 0)
    (htime : ∀ milliseconds ∈ limit, completed.elapsed < milliseconds) :
    (capture runner command env now limit files).result = .ok (outputText completed.output) := by
  have hlimit : limit.filter (· ≤ completed.elapsed) = none := by
    rw [Option.filter_eq_none_iff]
    intro milliseconds hlimit
    simpa using htime milliseconds hlimit
  rw [capture, hrun]
  simp only [Completed.result, hlimit, hcode, if_true]

/-- **Captured output is a longest clean start.**  Let a program end within its time, with the code of a
success.  Let `t` be what its output reads as, without the line ends at its end.  The run comes to a
text: it is `t` if that has at most 1000000 bytes, and else the longest start of `t` that ends at a
boundary of a character within 1000000 bytes, and so at least 999997 bytes of it.  The search back for
that boundary ends before the start. -/
theorem capture_longest_start {runner : Runner} {command : Command} {env : Environment}
    {now : Moment} {limit : Option Nat} {files files' : Files.Tree} {completed : Completed}
    (hrun : runner command env now files = .ok (completed, files')) (hcode : completed.code = 0)
    (htime : ∀ milliseconds ∈ limit, completed.elapsed < milliseconds) :
    ∃ whole t text : String,
      Text.Utf8.Lossy completed.output.data.toList whole.toList ∧ WithoutLineEnds whole t ∧
      (capture runner command env now limit files).result = .ok text ∧
      (t.utf8ByteSize ≤ 1000000 → text = t) ∧
      (1000000 < t.utf8ByteSize → LongestStart 1000000 t text ∧ 999997 ≤ text.utf8ByteSize ∧
        ∃ p, boundaryBack? t 1000000 = some p ∧ p.offset.byteIdx = text.utf8ByteSize ∧
          0 < p.offset.byteIdx) := by
  refine ⟨_, wholeText completed.output, clip 1000000 (wholeText completed.output),
    Text.Utf8.decodeLossy_eq_iff.1 rfl, withoutLineEnds_wholeText _,
    capture_of_success hrun hcode htime, clip_of_le, fun hlong => ?_⟩
  obtain ⟨p, hp, hsize, hstart⟩ := exists_boundaryBack?_clip hlong
  have hclose := hstart.lt_add_four hlong.le
  exact ⟨hstart, by omega, p, hp, hsize, by omega⟩

/-- A character of one byte, and many of two. -/
def accents (n : Nat) : String := .ofList ('x' :: List.replicate n 'é')

theorem accents_succ (n : Nat) : accents (n + 1) = (accents n).push 'é' := by
  rw [accents, accents, List.replicate_succ', ← List.cons_append, String.ofList_append]
  rfl

theorem utf8ByteSize_accents (n : Nat) : (accents n).utf8ByteSize = 1 + 2 * n := by
  induction n with
  | zero => rfl
  | succ n ih =>
    rw [accents_succ, String.utf8ByteSize_push, ih]
    rfl

theorem withoutLineEnds_accents (n : Nat) :
    WithoutLineEnds (accents (n + 1) ++ "\r\n") (accents (n + 1)) where
  ends := ⟨_, rfl, by simp⟩
  last c hc := by
    rw [accents_succ, String.toList_push, List.getLast?_concat, Option.mem_some_iff] at hc
    rw [← hc]
    decide

/-- A program whose output is too long by one byte of a character, its line end apart. -/
def accentsOutput : Completed := ⟨0, (accents 500000 ++ "\r\n").toByteArray, .empty, 20⟩

/-- What runs it. -/
def accentsRunner : Runner := fun _ _ _ files => .ok (accentsOutput, files)

/-- The limit is within a character, which is cut off whole. -/
theorem capture_longest_start_accents :
    accentsRunner ⟨"cat", ["accents"]⟩ ∅ ⟨0, 0⟩ ∅ = .ok (accentsOutput, ∅) ∧ accentsOutput.code = 0 ∧
      (∀ milliseconds ∈ some 30000, accentsOutput.elapsed < milliseconds) ∧
      (capture accentsRunner ⟨"cat", ["accents"]⟩ ∅ ⟨0, 0⟩ (some 30000) ∅).result =
        .ok (accents 499999) := by
  have hrun : accentsRunner ⟨"cat", ["accents"]⟩ ∅ ⟨0, 0⟩ ∅ = .ok (accentsOutput, ∅) := rfl
  have hcode : accentsOutput.code = 0 := rfl
  have htime : ∀ milliseconds ∈ some 30000, accentsOutput.elapsed < milliseconds := by
    simp [accentsOutput]
  obtain ⟨whole, t, text, hreads, ht, hresult, -, hlong⟩ := capture_longest_start hrun hcode htime
  obtain rfl : accents 500000 ++ "\r\n" = whole := by
    rw [← Text.Utf8.decodeLossy_eq_iff.2 hreads, accentsOutput, Text.Utf8.decodeLossy_toByteArray]
  obtain rfl := ht.unique (withoutLineEnds_accents 499999)
  have hfront := utf8ByteSize_accents 499999
  obtain ⟨hstart, -⟩ := hlong (by rw [utf8ByteSize_accents]; omega)
  rw [accents_succ, ← String.append_empty (s := (accents 499999).push 'é')] at hstart
  have hsize : 'é'.utf8Size = 2 := rfl
  obtain rfl := hstart.eq_of_push (by omega) (by omega)
  exact ⟨hrun, hcode, htime, hresult⟩

end Stencil.Process
