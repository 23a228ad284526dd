import Stencil.Template.Splice

/-!
# Splicing as Simultaneous Replacement

`splice` applies its edits one by one, from the back of the text.  `Patched` says what that comes to
without an order: the text is kept character by character, except that every edited stretch gives
way to the text of its edit.

Main statement: `splice_eq_of_patched`.
-/

namespace Stencil.Template

open Stencil.Text

theorem byteLength_pos {cs : List Char} (h : cs ≠ []) : 0 < byteLength cs := by
  cases cs with
  | nil => exact absurd rfl h
  | cons c cs =>
    have := c.utf8Size_pos
    rw [byteLength_cons]
    omega

/-- An edit of a stretch that stands behind one text and before another. -/
theorem Edit.apply_append (front old back : List Char) (text : String) :
    Edit.apply (front ++ old ++ back)
        ⟨⟨byteLength front, byteLength front + byteLength old⟩, text⟩ =
      front ++ (text.toList ++ back) := by
  have htake : takeBytes (byteLength front) (front ++ old ++ back) = front := by
    rw [List.append_assoc, takeBytes_append]
  have hdrop : dropBytes (byteLength front + byteLength old) (front ++ old ++ back) = back := by
    rw [← byteLength_append, dropBytes_append]
  rw [Edit.apply, htake, hdrop, List.append_assoc]

/-- `Patched pos cs edits out`: a text that starts at a byte position and is `cs` becomes `out` when
the stretches of `edits`, in order and none of them empty, are replaced and all else is kept. -/
inductive Patched : Nat → List Char → List Edit → List Char → Prop
  /-- Nothing is left. -/
  | nil (pos : Nat) : Patched pos [] [] []
  /-- A character outside the edits is kept. -/
  | keep {pos : Nat} {cs out : List Char} {edits : List Edit} (c : Char)
      (rest : Patched (pos + c.utf8Size) cs edits out) : Patched pos (c :: cs) edits (c :: out)
  /-- An edited stretch gives way to the text of the edit. -/
  | replace {pos : Nat} {cs out : List Char} {edits : List Edit} (old : List Char) (text : String)
      (nonempty : old ≠ []) (rest : Patched (pos + byteLength old) cs edits out) :
      Patched pos (old ++ cs) (⟨⟨pos, pos + byteLength old⟩, text⟩ :: edits) (text.toList ++ out)

namespace Patched

variable {pos : Nat} {cs ds out out' : List Char} {edits edits' : List Edit}

/-! ## §1 Parts of a text -/

theorem refl (pos : Nat) (cs : List Char) : Patched pos cs [] cs := by
  induction cs generalizing pos with
  | nil => exact .nil pos
  | cons c cs ih => exact .keep c (ih (pos + c.utf8Size))

theorem append (h : Patched pos cs edits out)
    (h' : Patched (pos + byteLength cs) ds edits' out') :
    Patched pos (cs ++ ds) (edits ++ edits') (out ++ out') := by
  induction h with
  | nil pos => simpa using h'
  | keep c _ ih =>
    refine .keep c (ih ?_)
    rwa [byteLength_cons, ← Nat.add_assoc] at h'
  | replace old text hne _ ih =>
    rw [List.append_assoc, List.append_assoc]
    refine .replace old text hne (ih ?_)
    rwa [byteLength_append, ← Nat.add_assoc] at h'

theorem keep_append (kept : List Char) (h : Patched (pos + byteLength kept) cs edits out) :
    Patched pos (kept ++ cs) edits (kept ++ out) :=
  (refl pos kept).append h

theorem append_keep (h : Patched pos cs edits out) (kept : List Char) :
    Patched pos (cs ++ kept) edits (out ++ kept) := by
  simpa using h.append (refl _ kept)

theorem whole {old : List Char} (pos : Nat) (text : String) (hne : old ≠ []) :
    Patched pos old [⟨⟨pos, pos + byteLength old⟩, text⟩] text.toList := by
  simpa using replace old text hne (.nil (pos + byteLength old))

/-! ## §2 Where edits stand -/

theorem le_start (h : Patched pos cs edits out) : ∀ e ∈ edits, pos ≤ e.span.start := by
  induction h with
  | nil pos => simp
  | keep c _ ih =>
    intro e he
    have := ih e he
    omega
  | replace old text hne _ ih =>
    intro e he
    rcases List.mem_cons.1 he with rfl | he
    · exact Nat.le_refl _
    · have := ih e he
      omega

theorem starts (h : Patched pos cs edits out) :
    edits.Pairwise fun e f => e.span.start < f.span.start := by
  induction h with
  | nil pos => exact .nil
  | keep c _ ih => exact ih
  | replace old text hne hrest ih =>
    refine List.pairwise_cons.2 ⟨fun f hf => ?_, ih⟩
    have hstart := hrest.le_start f hf
    have hlength := byteLength_pos hne
    dsimp only
    omega

theorem eq_of_start (h : Patched pos cs edits out) {e f : Edit} (he : e ∈ edits) (hf : f ∈ edits)
    (heq : e.span.start = f.span.start) : e = f := by
  have hforward : edits.Pairwise fun e f => e.span.start = f.span.start → e = f :=
    h.starts.imp fun hlt hstart => absurd hstart (Nat.ne_of_lt hlt)
  have hbackward : edits.Pairwise fun e f => f.span.start = e.span.start → f = e :=
    h.starts.imp fun hlt hstart => absurd hstart (Nat.ne_of_gt hlt)
  exact List.Pairwise.forall_of_forall_of_flip (fun _ _ _ => rfl) hforward hbackward he hf heq

/-! ## §3 Splicing -/

/-- Applying edits from the back, behind a text that ends where the patched one starts. -/
theorem foldr_apply (h : Patched pos cs edits out) (front : List Char)
    (hfront : byteLength front = pos) :
    edits.foldr (fun e cs => Edit.apply cs e) (front ++ cs) = front ++ out := by
  induction h generalizing front with
  | nil pos => rfl
  | @keep pos _ _ _ c _ ih =>
    have hlength : byteLength (front ++ [c]) = pos + c.utf8Size := by
      rw [byteLength_append, hfront]
      simp
    simpa using ih (front ++ [c]) hlength
  | @replace pos cs out edits old text hne _ ih =>
    -- The edits behind leave `front` and `old` where they are, so the last one finds its stretch.
    subst hfront
    have hrest := ih (front ++ old) (byteLength_append front old)
    rw [List.foldr_cons, ← List.append_assoc, hrest, Edit.apply_append]

/-- The order in which `splice` takes edits whose stretches come one after the other, however they are
listed. -/
theorem mergeSort_eq_reverse (h : Patched pos cs edits out) {listed : List Edit}
    (hlisted : listed.Perm edits) :
    (listed.mergeSort fun a b => decide (b.span.start ≤ a.span.start)) = edits.reverse := by
  -- Both are sorted by where the stretches start, which tells the edits apart.
  have hsorted : (listed.mergeSort fun a b => decide (b.span.start ≤ a.span.start)).Pairwise
      fun a b => b.span.start ≤ a.span.start := by
    have hpairwise : (listed.mergeSort fun a b => decide (b.span.start ≤ a.span.start)).Pairwise
        fun a b => decide (b.span.start ≤ a.span.start) = true :=
      List.pairwise_mergeSort
        (fun a b c hab hbc => by
          simp only [decide_eq_true_eq] at hab hbc ⊢
          omega)
        (fun a b => by
          simp only [Bool.or_eq_true, decide_eq_true_eq]
          omega) listed
    simpa using hpairwise
  have hreverse : edits.reverse.Pairwise fun a b => b.span.start ≤ a.span.start :=
    List.pairwise_reverse.2 (h.starts.imp fun hlt => Nat.le_of_lt hlt)
  have hperm : (listed.mergeSort fun a b => decide (b.span.start ≤ a.span.start)).Perm
      edits.reverse :=
    ((List.mergeSort_perm listed _).trans hlisted).trans (List.reverse_perm edits).symm
  refine hperm.eq_of_pairwise (fun a b ha hb hab hba => ?_) hsorted hreverse
  have ha' : a ∈ edits := List.mem_reverse.1 (hperm.mem_iff.1 ha)
  have hb' : b ∈ edits := List.mem_reverse.1 hb
  exact h.eq_of_start ha' hb' (Nat.le_antisymm hba hab)

end Patched

/-- Splicing replaces the stretches of its edits and keeps everything else, in whatever order the edits
are listed. -/
theorem splice_eq_of_perm {source : String} {listed edits : List Edit} {out : List Char}
    (h : Patched 0 source.toList edits out) (hlisted : listed.Perm edits) :
    splice source listed = .ofList out := by
  unfold splice
  rw [h.mergeSort_eq_reverse hlisted]
  simp only [List.foldl_reverse]
  exact congrArg String.ofList (h.foldr_apply [] rfl)

/-- Splicing replaces the stretches of its edits and keeps everything else. -/
theorem splice_eq_of_patched {source : String} {edits : List Edit} {out : List Char}
    (h : Patched 0 source.toList edits out) : splice source edits = .ofList out :=
  splice_eq_of_perm h (.refl edits)

theorem splice_nil (source : String) : splice source [] = source := by
  rw [splice_eq_of_patched (Patched.refl 0 source.toList), String.ofList_toList]

/-- Of two edits in the order of the text, the second is made first. -/
theorem splice_pair (source : String) {e e' : Edit} (h : e.span.start < e'.span.start) :
    splice source [e, e'] = .ofList (Edit.apply (Edit.apply source.toList e') e) := by
  have hsort : ([e, e'].mergeSort fun a b => decide (b.span.start ≤ a.span.start)) = [e', e] := by
    simp [List.mergeSort, List.MergeSort.Internal.splitInTwo, h]
  unfold splice
  rw [hsort]
  rfl

end Stencil.Template
