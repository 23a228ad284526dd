import Stencil.Proofs.Template.Cover
import Stencil.Proofs.Template.Splicing

/-!
# Legal Edits

Edits are legal for a text when each replaces something, from one place between characters to another,
and no two replace the same byte.  They can then be listed in any order: in the order of the text they
patch it, and `splice` gives what they patch it to.

Main statements: `Legal.exists_patched`, `spliceChecked_eq_of_perm` (a splice that looks at its
stretches finds them all in place) and `legal_alike` (tokens that are written alike).
-/

namespace Stencil.Template

open Stencil.Text

/-! ## §1 Places between characters -/

/-- A byte position lies between two characters of a text, or at one of its ends. -/
def IsBoundary (cs : List Char) (n : Nat) : Prop := byteLength (takeBytes n cs) = n

instance (cs : List Char) (n : Nat) : Decidable (IsBoundary cs n) :=
  inferInstanceAs (Decidable (_ = _))

theorem isBoundary_iff {cs : List Char} {n : Nat} :
    IsBoundary cs n ↔ ∃ before after, cs = before ++ after ∧ byteLength before = n := by
  constructor
  · intro h
    exact ⟨takeBytes n cs, dropBytes n cs, (takeBytes_append_dropBytes n cs).symm, h⟩
  · rintro ⟨before, after, rfl, rfl⟩
    rw [IsBoundary, takeBytes_append]

theorem isBoundary_zero (cs : List Char) : IsBoundary cs 0 := isBoundary_iff.2 ⟨[], cs, rfl, rfl⟩

theorem isBoundary_byteLength (cs : List Char) : IsBoundary cs (byteLength cs) :=
  isBoundary_iff.2 ⟨cs, [], by simp, rfl⟩

/-- The part of a text from one byte position up to another. -/
def stretch (cs : List Char) (start stop : Nat) : List Char :=
  takeBytes (stop - start) (dropBytes start cs)

theorem stretch_empty (cs : List Char) (n : Nat) : stretch cs n n = [] := by
  have hle := byteLength_takeBytes_le (n - n) (dropBytes n cs)
  exact byteLength_eq_zero_iff.1 (by rw [stretch]; omega)

theorem TextAt.stretch_eq {cs w : List Char} {s : Span} (h : TextAt 0 cs s w) :
    stretch cs s.start s.stop = w := by
  obtain ⟨before, after, rfl, rfl⟩ := h
  simp [stretch]

theorem textAt_stretch {cs : List Char} {start stop : Nat} (hstart : IsBoundary cs start)
    (hstop : IsBoundary cs stop) (hle : start ≤ stop) :
    TextAt 0 cs ⟨start, stop⟩ (stretch cs start stop) := by
  obtain ⟨before, rest, rfl, rfl⟩ := isBoundary_iff.1 hstart
  obtain ⟨before', after, hcs, rfl⟩ := isBoundary_iff.1 hstop
  obtain ⟨w, rfl, rfl⟩ := exists_append_of_byteLength_le hcs hle
  exact ⟨before, after, by simp [stretch], by simp [stretch]⟩

theorem byteLength_stretch {cs : List Char} {start stop : Nat} (hstart : IsBoundary cs start)
    (hstop : IsBoundary cs stop) (hle : start ≤ stop) :
    start + byteLength (stretch cs start stop) = stop := by
  obtain ⟨before, after, -, hspan⟩ := textAt_stretch hstart hstop hle
  simp only [Span.mk.injEq] at hspan
  omega

theorem stretch_append_stretch {cs : List Char} {a b c : Nat} (ha : IsBoundary cs a)
    (hb : IsBoundary cs b) (hc : IsBoundary cs c) (hab : a ≤ b) (hbc : b ≤ c) :
    stretch cs a b ++ stretch cs b c = stretch cs a c := by
  -- The three boundaries cut the text into what is before them, the two stretches and what is behind.
  obtain ⟨front, rest, rfl, rfl⟩ := isBoundary_iff.1 ha
  obtain ⟨_, rest', hcs, rfl⟩ := isBoundary_iff.1 hb
  obtain ⟨w, rfl, rfl⟩ := exists_append_of_byteLength_le hcs hab
  obtain ⟨_, back, hcs', rfl⟩ := isBoundary_iff.1 hc
  rw [← List.append_assoc] at hcs'
  obtain ⟨w', rfl, rfl⟩ := exists_append_of_byteLength_le hcs' hbc
  have hfirst : stretch (front ++ (w ++ (w' ++ back))) (byteLength front)
      (byteLength (front ++ w)) = w :=
    TextAt.stretch_eq (s := ⟨_, _⟩) ⟨front, w' ++ back, rfl, by simp⟩
  have hsecond : stretch (front ++ (w ++ (w' ++ back))) (byteLength (front ++ w))
      (byteLength (front ++ w ++ w')) = w' :=
    TextAt.stretch_eq (s := ⟨_, _⟩) ⟨front ++ w, back, by simp, by simp [Nat.add_assoc]⟩
  have hboth : stretch (front ++ (w ++ (w' ++ back))) (byteLength front)
      (byteLength (front ++ w ++ w')) = w ++ w' :=
    TextAt.stretch_eq (s := ⟨_, _⟩) ⟨front, back, by simp, by simp⟩
  rw [hfirst, hsecond, hboth]

theorem stretch_self (cs : List Char) : stretch cs 0 (byteLength cs) = cs :=
  TextAt.stretch_eq (s := ⟨0, byteLength cs⟩) ⟨[], [], by simp, by simp⟩

/-! ## §2 Legal edits -/

/-- A span marks a part of a text: it is not empty, and its ends lie between characters. -/
structure Marks (cs : List Char) (s : Span) : Prop where
  /-- It is not empty. -/
  nonempty : s.start < s.stop
  /-- It starts between characters. -/
  start : IsBoundary cs s.start
  /-- It stops between characters. -/
  stop : IsBoundary cs s.stop

instance (cs : List Char) (s : Span) : Decidable (Marks cs s) :=
  decidable_of_iff (s.start < s.stop ∧ IsBoundary cs s.start ∧ IsBoundary cs s.stop)
    ⟨fun ⟨hlt, hstart, hstop⟩ => ⟨hlt, hstart, hstop⟩, fun h => ⟨h.nonempty, h.start, h.stop⟩⟩

theorem TextAt.marks {cs w : List Char} {s : Span} (h : TextAt 0 cs s w) (hlt : s.start < s.stop) :
    Marks cs s := by
  obtain ⟨before, after, rfl, rfl⟩ := h
  exact ⟨hlt, isBoundary_iff.2 ⟨before, _, rfl, by simp⟩,
    isBoundary_iff.2 ⟨before ++ w, after, by simp, by simp⟩⟩

theorem Marks.length {cs : List Char} {s : Span} (h : Marks cs s) :
    s.start + byteLength (stretch cs s.start s.stop) = s.stop :=
  byteLength_stretch h.start h.stop h.nonempty.le

theorem Marks.patched {cs : List Char} {s : Span} (h : Marks cs s) (text : String) :
    Patched s.start (stretch cs s.start s.stop) [⟨s, text⟩] text.toList := by
  have hlt := h.nonempty
  have hlength := h.length
  have hne : stretch cs s.start s.stop ≠ [] := by
    intro hnil
    rw [hnil, byteLength_nil] at hlength
    omega
  have hwhole := Patched.whole s.start text hne
  rwa [hlength] at hwhole

/-- Edits that can be made in a text all at once. -/
structure Legal (cs : List Char) (edits : List Edit) : Prop where
  /-- Each replaces a part of the text. -/
  marks : ∀ e ∈ edits, Marks cs e.span
  /-- No two of these parts overlap. -/
  disjoint : edits.Pairwise fun e f => e.span.stop ≤ f.span.start ∨ f.span.stop ≤ e.span.start

instance (cs : List Char) (edits : List Edit) : Decidable (Legal cs edits) :=
  decidable_of_iff ((∀ e ∈ edits, Marks cs e.span) ∧
      edits.Pairwise fun e f => e.span.stop ≤ f.span.start ∨ f.span.stop ≤ e.span.start)
    ⟨fun ⟨hmarks, hdisjoint⟩ => ⟨hmarks, hdisjoint⟩, fun h => ⟨h.marks, h.disjoint⟩⟩

theorem Legal.perm {cs : List Char} {edits edits' : List Edit} (h : Legal cs edits)
    (hperm : edits.Perm edits') : Legal cs edits' :=
  ⟨fun e he => h.marks e (hperm.mem_iff.2 he), (hperm.pairwise_iff Or.symm).1 h.disjoint⟩

/-- The part of a text from a position up to another after edits in it, given in order: what lies
between them is copied. -/
def fillIn (cs : List Char) (stop : Nat) : Nat → List Edit → List Char
  | pos, [] => stretch cs pos stop
  | pos, e :: edits =>
    stretch cs pos e.span.start ++ (e.text.toList ++ fillIn cs stop e.span.stop edits)

/-- Edits in order patch a part of a text that they all lie in. -/
theorem patched_fillIn {cs : List Char} {pos stop : Nat} {edits : List Edit}
    (hpos : IsBoundary cs pos) (hstop : IsBoundary cs stop) (hle : pos ≤ stop)
    (hmarks : ∀ e ∈ edits, Marks cs e.span)
    (hbounds : ∀ e ∈ edits, pos ≤ e.span.start ∧ e.span.stop ≤ stop)
    (hordered : edits.Pairwise fun e f => e.span.stop ≤ f.span.start) :
    Patched pos (stretch cs pos stop) edits (fillIn cs stop pos edits) := by
  induction edits generalizing pos with
  | nil => exact .refl pos _
  | cons e edits ih =>
    have hmark := hmarks e List.mem_cons_self
    have hlt := hmark.nonempty
    obtain ⟨hfront, hback⟩ := hbounds e List.mem_cons_self
    obtain ⟨hnext, hordered⟩ := List.pairwise_cons.1 hordered
    have hrest := ih hmark.stop hback (fun f hf => hmarks f (List.mem_cons_of_mem _ hf))
      (fun f hf => ⟨hnext f hf, (hbounds f (List.mem_cons_of_mem _ hf)).2⟩) hordered
    -- The part is what is in front of the edit, what the edit replaces, and what is behind it.
    rw [← stretch_append_stretch hpos hmark.start hstop hfront (by omega),
      ← stretch_append_stretch hmark.start hmark.stop hstop hlt.le hback]
    refine Patched.keep_append _ ?_
    rw [byteLength_stretch hpos hmark.start hfront]
    refine (hmark.patched e.text).append ?_
    rwa [hmark.length]

/-- Legal edits patch the text in one order. -/
theorem Legal.exists_patched {cs : List Char} {edits : List Edit} (h : Legal cs edits) :
    ∃ ordered, edits.Perm ordered ∧ Patched 0 cs ordered (fillIn cs (byteLength cs) 0 ordered) := by
  let before (e f : Edit) : Bool := decide (e.span.start ≤ f.span.start)
  have hperm : (edits.mergeSort before).Perm edits := List.mergeSort_perm edits before
  have hlegal := h.perm hperm.symm
  have hsorted : (edits.mergeSort before).Pairwise fun e f => before e f = true :=
    List.pairwise_mergeSort
      (fun a b c hab hbc => by
        simp only [before, decide_eq_true_eq] at hab hbc ⊢
        omega)
      (fun a b => by
        simp only [before, Bool.or_eq_true, decide_eq_true_eq]
        omega) edits
  -- Of two disjoint stretches, the one that starts first also stops before the other starts.
  have hordered : (edits.mergeSort before).Pairwise fun e f => e.span.stop ≤ f.span.start := by
    refine (hsorted.and hlegal.disjoint).imp_of_mem ?_
    rintro e f - hf ⟨hstart, hdisjoint⟩
    have hlt := (hlegal.marks f hf).nonempty
    simp only [before, decide_eq_true_eq] at hstart
    omega
  refine ⟨edits.mergeSort before, hperm.symm, ?_⟩
  have hpatched := patched_fillIn (isBoundary_zero cs) (isBoundary_byteLength cs) (Nat.zero_le _)
    hlegal.marks (fun e he => ⟨Nat.zero_le _, ?_⟩) hordered
  · rwa [stretch_self] at hpatched
  · obtain ⟨front, back, rfl, hfront⟩ := isBoundary_iff.1 (hlegal.marks e he).stop
    rw [byteLength_append]
    omega

/-! ## §3 Splices that look where they cut -/

/-- Replaces one stretch, if it is one of the text: it does not stop before it starts, and both its
ends lie between characters. -/
def Edit.applyChecked (cs : List Char) (e : Edit) : Option (List Char) :=
  if e.span.start ≤ e.span.stop ∧ IsBoundary cs e.span.start ∧ IsBoundary cs e.span.stop then
    some (e.apply cs)
  else none

/-- Replaces every stretch of a list of edits, like `splice`, but gives up at one that is not of the
text it has by then. -/
def spliceChecked (source : String) (edits : List Edit) : Option String :=
  let ordered := edits.mergeSort fun a b => decide (b.span.start ≤ a.span.start)
  (ordered.foldlM Edit.applyChecked source.toList).map .ofList

/-- Edits that are made from the back find their stretches in place. -/
theorem Patched.foldrM_applyChecked {pos : Nat} {cs out : List Char} {edits : List Edit}
    (h : Patched pos cs edits out) (front : List Char) (hfront : byteLength front = pos) :
    edits.foldrM (fun e cs => Edit.applyChecked cs e) (front ++ cs) = some (front ++ out) := by
  induction h generalizing front with
  | nil pos => rfl
  | @keep pos _ _ _ c _ ih =>
    have hlength : byteLength (front ++ [c]) = pos + c.utf8Size := by
      rw [byteLength_append, hfront]
      simp
    simpa using ih (front ++ [c]) hlength
  | @replace pos cs out edits old text _ _ ih =>
    subst hfront
    have hrest := ih (front ++ old) (byteLength_append front old)
    -- What is done behind leaves `front` and `old` where they are.
    have hstart : IsBoundary (front ++ old ++ out) (byteLength front) :=
      isBoundary_iff.2 ⟨front, old ++ out, by simp, rfl⟩
    have hstop : IsBoundary (front ++ old ++ out) (byteLength front + byteLength old) :=
      isBoundary_iff.2 ⟨front ++ old, out, rfl, byteLength_append front old⟩
    rw [List.foldrM_cons, ← List.append_assoc, hrest, Option.bind_eq_bind, Option.bind_some,
      Edit.applyChecked, if_pos ⟨Nat.le_add_right _ _, hstart, hstop⟩, Edit.apply_append]

/-- Edits that patch a text can be made, in whatever order they are listed. -/
theorem spliceChecked_eq_of_perm {source : String} {listed edits : List Edit} {out : List Char}
    (h : Patched 0 source.toList edits out) (hlisted : listed.Perm edits) :
    spliceChecked source listed = some (.ofList out) := by
  unfold spliceChecked
  rw [h.mergeSort_eq_reverse hlisted]
  simp only [List.foldlM_reverse]
  exact congrArg (Option.map String.ofList) (h.foldrM_applyChecked [] rfl)

/-! ## §4 Edits at tokens -/

/-- The edit of a token, given the texts that names stand for. -/
def Token.edit? (text? : String → Option String) (t : Token) : Option Edit :=
  (text? t.name).map (⟨t.span, ·⟩)

theorem Token.span_of_edit? {text? : String → Option String} {t : Token} {e : Edit}
    (h : t.edit? text? = some e) : e.span = t.span := by
  obtain ⟨_, -, rfl⟩ := Option.map_eq_some_iff.1 h
  rfl

theorem exists_stands_of_mem_tokens {source : String} {t : Token} (h : t ∈ tokens source) :
    ∃ front, Stands source.toList front t := by
  obtain ⟨nested, hat⟩ := (cut_pieces source).exists_tokenAt h
  obtain ⟨front, hstands, -⟩ := hat.stands
  exact ⟨front, hstands⟩

theorem textAt_of_mem_tokens {source : String} {t : Token} (h : t ∈ tokens source) :
    TextAt 0 source.toList t.span t.raw.toList := by
  obtain ⟨front, hstands⟩ := exists_stands_of_mem_tokens h
  exact hstands.raw

theorem marks_of_mem_tokens {source : String} {t : Token} (h : t ∈ tokens source) :
    Marks source.toList t.span := by
  obtain ⟨piece, hpiece, ht⟩ := List.mem_flatMap.1 h
  exact (textAt_of_mem_tokens h).marks ((cut_pieces source).bounds_of_mem_tokens hpiece ht).2.1

/-- Two tokens that are written alike do not overlap: a token in the body of another is shorter. -/
theorem disjoint_of_raw_eq {source : String} : (tokens source).Pairwise fun t u =>
    t.raw = u.raw → t.span.stop ≤ u.span.start := by
  have hcut := cut_pieces source
  refine hcut.pairwise_tokens.imp_of_mem ?_
  rintro t u ht hu ⟨-, hle | ⟨nested, hpiece, hmem⟩⟩ hraw
  · exact hle
  · obtain ⟨front, -, hnests⟩ := (hcut.tokenAt hpiece).stands
    have hinside := hnests.bounds hmem
    obtain ⟨_, _, -, hspan⟩ := textAt_of_mem_tokens ht
    obtain ⟨_, _, -, hspan'⟩ := textAt_of_mem_tokens hu
    rw [hspan, hspan', hraw] at hinside
    dsimp only at hinside
    omega

/-- Edits at tokens that are written alike are legal. -/
theorem legal_alike (source : String) (p : Token → Bool) (raw : String)
    (hp : ∀ t, p t = true → t.raw = raw) (result : String) :
    Legal source.toList (((tokens source).filter p).map fun t => ⟨t.span, result⟩) := by
  constructor
  · intro e he
    obtain ⟨t, ht, rfl⟩ := List.mem_map.1 he
    exact marks_of_mem_tokens (List.mem_filter.1 ht).1
  · refine List.pairwise_map.2 ((disjoint_of_raw_eq.filter p).imp_of_mem ?_)
    intro t u ht hu hdisjoint
    refine .inl (hdisjoint ?_)
    rw [hp t (List.mem_filter.1 ht).2, hp u (List.mem_filter.1 hu).2]

end Stencil.Template
