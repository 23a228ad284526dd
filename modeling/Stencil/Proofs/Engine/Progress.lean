import Stencil.Proofs.Engine.Journal
import Stencil.Proofs.Engine.Splices

/-!
# Working Off a Directive Makes Progress

The number of tokens is no measure of the work that is left for a directive: a result that is put in
place may bring braces together that were apart, and so make tokens that were not there.  The number of
braces is one.  A token is written with four of them at least, the token that a directive is evaluated
for is among those that give way to the result, and a result without braces brings none.

Main statement: `resolve_progress`.
-/

namespace Stencil.Template

open Stencil.Text

/-! ## §1 Braces -/

/-- How many braces a text holds. -/
def braces (cs : List Char) : Nat := cs.countP isBrace

@[simp] theorem braces_append (cs ds : List Char) : braces (cs ++ ds) = braces cs + braces ds :=
  List.countP_append

theorem braces_of_braceFree {cs : List Char} (h : BraceFree cs) : braces cs = 0 :=
  List.countP_eq_zero.2 fun c hc => by simp [h c hc]

theorem four_le_braces_braced (front : List Char) (body : Option (List Char)) :
    4 ≤ braces (braced front body) := by
  have hopen : braces ['{', '{'] = 2 := rfl
  have hclose : braces ['}', '}'] = 2 := rfl
  cases body with
  | none =>
    have hcs : braced front none = ['{', '{'] ++ (front ++ ['}', '}']) := rfl
    rw [hcs, braces_append, braces_append]
    omega
  | some body =>
    have hcs : braced front (some body) = ['{', '{'] ++ (front ++ ':' :: body ++ ['}', '}']) := by
      simp [braced]
    rw [hcs, braces_append, braces_append]
    omega

theorem four_le_braces_of_mem_tokens {source : String} {t : Token} (h : t ∈ tokens source) :
    4 ≤ braces t.raw.toList := by
  obtain ⟨front, hstands⟩ := exists_stands_of_mem_tokens h
  rw [hstands.written]
  exact four_le_braces_braced front _

/-- Where every edit takes some number of braces and brings none, that many are lost for each. -/
theorem Patched.braces_add_le {pos k : Nat} {cs out : List Char} {edits : List Edit}
    (h : Patched pos cs edits out) (hfree : ∀ e ∈ edits, BraceFree e.text.toList)
    (htakes : ∀ e ∈ edits, ∀ w, TextAt pos cs e.span w → k ≤ braces w) :
    braces out + k * edits.length ≤ braces cs := by
  induction h with
  | nil pos => simp
  | @keep pos cs out edits c _ ih =>
    -- A character that is kept counts on both sides.
    have hrest := ih hfree fun e he w hw => by
      refine htakes e he w (TextAt.append_left [c] ?_)
      simpa using hw
    have hsplit (ds : List Char) : braces (c :: ds) = braces [c] + braces ds :=
      braces_append [c] ds
    rw [hsplit, hsplit cs]
    omega
  | @replace pos cs out edits old text _ _ ih =>
    obtain ⟨hfirst, hfree⟩ := List.forall_mem_cons.1 hfree
    have hrest := ih hfree fun e he w hw =>
      htakes e (List.mem_cons_of_mem _ he) w (TextAt.append_left old hw)
    have hold : k ≤ braces old := htakes _ List.mem_cons_self old ⟨[], cs, rfl, by simp⟩
    rw [braces_append, braces_append, braces_of_braceFree hfirst, List.length_cons, Nat.mul_add_one]
    omega

end Stencil.Template

namespace Stencil.Engine

open Stencil.Text Template

variable {σ : Type}

/-! ## §2 One evaluation -/

/-- The token that a directive is evaluated for is among those that give way to the result. -/
theorem mem_editsFor (d : Directive σ) {source : String} {token : Token}
    (h : token ∈ tokens source) (hname : token.name = d.name) (result : String) :
    ⟨token.span, result⟩ ∈ editsFor d source token result := by
  rw [editsFor]
  split
  · have halike : token ∈ (tokensNamed source d.name).filter (·.raw == token.raw) := by
      simp [tokensNamed, h, hname]
    exact List.mem_map_of_mem halike
  · exact List.mem_singleton_self _

/-- The edits for a result put it in the place of tokens of the text. -/
theorem exists_token_of_mem_editsFor {d : Directive σ} {source : String} {token : Token}
    (h : token ∈ tokens source) {result : String} {e : Edit}
    (he : e ∈ editsFor d source token result) : ∃ t ∈ tokens source, e = ⟨t.span, result⟩ := by
  rw [editsFor] at he
  split at he
  · obtain ⟨t, ht, rfl⟩ := List.mem_map.1 he
    exact ⟨t, (List.mem_filter.1 (List.mem_filter.1 ht).1).1, rfl⟩
  · exact ⟨token, h, List.mem_singleton.1 he⟩

/-- An evaluation whose result holds no brace takes four braces from the text at least. -/
theorem braces_step {r : Rendering σ} {d : Directive σ} {token : Token}
    (h : token ∈ tokens r.text) (hname : token.name = d.name)
    (hfree : BraceFree (⟨d, token, r.context, r.state⟩ : Evaluation σ).outcome.text.toList) :
    braces (r.step d token).text.toList + 4 ≤ braces r.text.toList := by
  have hstep : (r.step d token).text = splice r.text (editsFor d r.text token
      (⟨d, token, r.context, r.state⟩ : Evaluation σ).outcome.text) := rfl
  generalize (⟨d, token, r.context, r.state⟩ : Evaluation σ).outcome.text = result at hfree hstep
  obtain ⟨ordered, hperm, hpatched⟩ := (legal_editsFor d h result).exists_patched
  have hedits : ∀ e ∈ ordered, ∃ t ∈ tokens r.text, e = ⟨t.span, result⟩ := fun e he =>
    exists_token_of_mem_editsFor h (hperm.mem_iff.2 he)
  -- The chosen token is replaced, so there is an edit that takes four braces.
  have hlength : 1 ≤ ordered.length :=
    List.length_pos_of_mem (hperm.mem_iff.1 (mem_editsFor d h hname result))
  have hbraces := hpatched.braces_add_le (k := 4) ?_ ?_
  · rw [hstep, splice_eq_of_perm hpatched hperm, String.toList_ofList]
    omega
  · intro e he
    obtain ⟨t, -, rfl⟩ := hedits e he
    exact hfree
  · intro e he w hw
    obtain ⟨t, ht, rfl⟩ := hedits e he
    rw [← hw.stretch_eq, (textAt_of_mem_tokens ht).stretch_eq]
    exact four_le_braces_of_mem_tokens ht

/-! ## §3 Working off a directive -/

/-- Working off a directive ends when its evaluations are used up or no token is left, and as long as
results hold no braces every evaluation takes four braces from the text. -/
theorem braces_resolve (d : Directive σ) (limit : Nat) (r : Rendering σ) :
    ∃ es, (resolve d limit r).evaluations = r.evaluations ++ es ∧ es.length ≤ limit ∧ Owned d es ∧
      (es.length < limit → tokensNamed (resolve d limit r).text d.name = []) ∧
      ((∀ e ∈ es, BraceFree e.outcome.text.toList) →
        braces (resolve d limit r).text.toList + 4 * es.length ≤ braces r.text.toList) := by
  induction limit generalizing r with
  | zero => exact ⟨[], by simp [resolve], Nat.le_refl _, by simp [Owned], by simp, by simp [resolve]⟩
  | succ limit ih =>
    rw [resolve]
    split
    · rename_i hnone
      exact ⟨[], by simp, Nat.zero_le _, by simp [Owned],
        fun _ => firstNamed_eq_none_iff.1 hnone, by simp⟩
    · rename_i t nested hfirst
      have hname := name_of_firstNamed hfirst
      obtain ⟨es, hes, hlength, howned, hleft, hbraces⟩ := ih (r.step d t)
      refine ⟨⟨d, t, r.context, r.state⟩ :: es, ?_, Nat.succ_le_succ hlength, ?_, ?_, ?_⟩
      · rw [hes, evaluations_step, List.append_assoc, List.singleton_append]
      · exact List.forall_mem_cons.2 ⟨⟨rfl, hname⟩, howned⟩
      · exact fun hlt => hleft (Nat.lt_of_succ_lt_succ hlt)
      · intro hfree
        obtain ⟨hfirstFree, hfree⟩ := List.forall_mem_cons.1 hfree
        -- The token that goes has at least four braces, and the result brings none.
        have hrest := hbraces hfree
        have hstep := braces_step (mem_tokens_of_firstNamed hfirst) hname hfirstFree
        rw [List.length_cons]
        omega

/-- **Working off a directive is bounded and makes progress.**  It evaluates the directive at most as
often as the limit allows, and less often only if no token of its name is left.  If no result holds a
brace, it does so at most once for every four braces of the text, whatever tokens come about on the way;
so with a limit of at least that, no token of the name is left. -/
theorem resolve_progress (d : Directive σ) (limit : Nat) (r : Rendering σ) :
    ∃ es, (resolve d limit r).evaluations = r.evaluations ++ es ∧ Owned d es ∧
      es.length ≤ limit ∧
      (es.length < limit → tokensNamed (resolve d limit r).text d.name = []) ∧
      ((∀ e ∈ es, BraceFree e.outcome.text.toList) →
        es.length ≤ braces r.text.toList / 4 ∧
        (braces r.text.toList / 4 ≤ limit →
          tokensNamed (resolve d limit r).text d.name = [])) := by
  obtain ⟨es, hes, hlength, howned, hleft, hbraces⟩ := braces_resolve d limit r
  refine ⟨es, hes, howned, hlength, hleft, fun hfree => ?_⟩
  have hlost := hbraces hfree
  refine ⟨by omega, fun hlimit => ?_⟩
  rcases Nat.lt_or_ge es.length limit with hlt | hge
  · exact hleft hlt
  · -- All evaluations are used up, and the braces that are left are too few for a token.
    refine List.filter_eq_nil_iff.2 fun t ht => ?_
    obtain ⟨before, after, hcs, -⟩ := textAt_of_mem_tokens ht
    have hfour := four_le_braces_of_mem_tokens ht
    rw [hcs, braces_append, braces_append] at hlost
    omega

/-- A token that comes about only when another has given way. -/
theorem resolve_progress_formed :
    let d : Directive Nat := ⟨"x", "", [], [], false, fun _ _ n => .ok .empty (n + 1)⟩
    let r : Rendering Nat := ⟨"{{{{x}}x}}", Dict.empty, 0, []⟩
    (tokensNamed r.text "x").length = 1 ∧ (resolve d 2 r).evaluations.length = 2 ∧
      tokensNamed (resolve d 2 r).text "x" = [] := by
  intro d r
  obtain ⟨es, hes, howned, -, -, hprogress⟩ := resolve_progress d 2 r
  have hfree : ∀ e ∈ es, BraceFree e.outcome.text.toList := by
    intro e he
    rw [Evaluation.outcome, Evaluation.answer, Evaluation.run, (howned e he).1]
    exact braceFree_nil
  exact ⟨by decide +kernel, by decide +kernel, (hprogress hfree).2 (by decide +kernel)⟩

end Stencil.Engine
