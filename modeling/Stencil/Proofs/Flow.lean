import Stencil.Flow
import Stencil.Proofs.Template.Grammar

/-!
# Cutting Branches Apart

A text without pairs of braces is cut at its first colon, wherever that comes from.  So a body without
braces that is made of two branches with a colon between them is cut between them exactly if the first
holds no colon.

Main statement: `half_eq_iff`.
-/

namespace Stencil.Flow

open Stencil.Text Stencil.Template

/-- A character that starts no pair of braces is a cut or is passed over. -/
theorem cutAtColon_cons {depth : Nat} {c : Char} {cs : List Char} (hopen : ¬StartsPair '{' (c :: cs))
    (hclose : ¬StartsPair '}' (c :: cs)) : cutAtColon depth (c :: cs) =
      if c = ':' && depth = 0 then some ([], cs)
      else (cutAtColon depth cs).map fun (yes, no) => (c :: yes, no) := by
  rw [not_startsPair_iff] at hopen hclose
  rw [cutAtColon]
  · exact hopen
  · exact hclose

/-- A text without pairs of braces is passed over, in double braces or if it holds no colon. -/
theorem cutAtColon_pass {depth : Nat} {text : List Char} {d : Char} (hpair : NoPair (text ++ [d]))
    (hcolon : depth = 0 → ':' ∉ text) (cs : List Char) : cutAtColon depth (text ++ d :: cs) =
      (cutAtColon depth (d :: cs)).map fun (yes, no) => (text ++ yes, no) := by
  induction text with
  | nil => exact Option.map_id'.symm
  | cons c text ih =>
    rw [List.cons_append, noPair_cons_iff] at hpair
    obtain ⟨hopen, hclose, hpair⟩ := hpair
    rw [← startsPair_append_iff] at hopen hclose
    have hkept : ¬(c = ':' && depth = 0) = true := by
      intro hcut
      obtain ⟨rfl, hdepth⟩ := by simpa using hcut
      exact hcolon hdepth List.mem_cons_self
    have hcolon' : depth = 0 → ':' ∉ text := fun hdepth hmem =>
      hcolon hdepth (List.mem_cons_of_mem c hmem)
    rw [List.cons_append, cutAtColon_cons hopen hclose, if_neg hkept, ih hpair hcolon', Option.map_map]
    rfl

theorem cutAtColon_append {yes : List Char} (hpair : NoPair (yes ++ [':'])) (hcolon : ':' ∉ yes)
    (no : List Char) : cutAtColon 0 (yes ++ ':' :: no) = some (yes, no) := by
  rw [cutAtColon_pass hpair fun _ => hcolon, cutAtColon_cons (by simp [StartsPair])
    (by simp [StartsPair])]
  simp

theorem cutAtColon_of_not_mem {cs : List Char} (hpair : NoPair cs) (hcolon : ':' ∉ cs) :
    cutAtColon 0 cs = none := by
  induction cs with
  | nil => rfl
  | cons c cs ih =>
    obtain ⟨hopen, hclose, hpair⟩ := noPair_cons_iff.1 hpair
    rw [List.mem_cons, not_or] at hcolon
    rw [cutAtColon_cons hopen hclose, ih hpair hcolon.2]
    simp [Ne.symm hcolon.1]

theorem noPair_of_braceFree {cs : List Char} (hfree : BraceFree cs) : NoPair cs := by
  constructor
  · intro hopen
    exact absurd (hfree '{' (hopen.subset List.mem_cons_self)) (by decide)
  · intro hclose
    exact absurd (hfree '}' (hclose.subset List.mem_cons_self)) (by decide)

theorem noPair_colon_of_braceFree {cs : List Char} (hfree : BraceFree cs) : NoPair (cs ++ [':']) :=
  noPair_of_braceFree (braceFree_append.2 ⟨hfree, by decide⟩)

/-- Branches are told apart if the first holds no colon. -/
theorem branches_of_not_mem {yes : String} (hfree : BraceFree yes.toList)
    (hcolon : ':' ∉ yes.toList) (no : String) : branches (yes ++ ":" ++ no) = (yes, no) := by
  have hcut := cutAtColon_append (noPair_colon_of_braceFree hfree) hcolon no.toList
  have htext : (yes ++ ":" ++ no).toList = yes.toList ++ ':' :: no.toList := by simp
  rw [branches, htext, hcut]
  simp

/-- A first branch that holds a colon is cut there. -/
theorem branches_of_mem {yes : String} (hfree : BraceFree yes.toList) (hcolon : ':' ∈ yes.toList)
    (no : String) :
    ∃ first rest : String, yes = first ++ ":" ++ rest ∧
      branches (yes ++ ":" ++ no) = (first, rest ++ ":" ++ no) := by
  obtain ⟨first, rest, hyes, hfirst⟩ := List.eq_append_cons_of_mem hcolon
  rw [hyes, braceFree_append] at hfree
  refine ⟨.ofList first, .ofList rest, ?_, ?_⟩
  · rw [← String.toList_inj, hyes]
    simp
  · have htext : (yes ++ ":" ++ no).toList = first ++ ':' :: (rest ++ ':' :: no.toList) := by
      simp [hyes]
    rw [branches, htext, cutAtColon_append (noPair_colon_of_braceFree hfree.1) hfirst]
    simp only [Prod.mk.injEq, true_and]
    rw [← String.toList_inj]
    simp

/-- The half of a body that counts. -/
def half (accepted : Bool) (body : String) : String :=
  if accepted then (branches body).1 else (branches body).2

theorem braceFree_half {body : String} (hfree : BraceFree body.toList) (accepted : Bool) :
    BraceFree (half accepted body).toList := by
  have hbranches : BraceFree (branches body).1.toList ∧ BraceFree (branches body).2.toList := by
    by_cases hcolon : ':' ∈ body.toList
    · obtain ⟨yes, no, hbody, hyes⟩ := List.eq_append_cons_of_mem hcolon
      rw [hbody, braceFree_append] at hfree
      rw [branches, hbody, cutAtColon_append (noPair_colon_of_braceFree hfree.1) hyes]
      simpa using ⟨hfree.1, hfree.2.tail⟩
    · rw [branches, cutAtColon_of_not_mem (noPair_of_braceFree hfree) hcolon]
      exact ⟨hfree, by simpa using braceFree_nil⟩
  cases accepted with
  | true => exact hbranches.1
  | false => exact hbranches.2

/-- A half is the branch that counts exactly if the first branch holds no colon. -/
theorem half_eq_iff {yes : String} (hfree : BraceFree yes.toList) (no : String) (accepted : Bool) :
    half accepted (yes ++ ":" ++ no) = (if accepted then yes else no) ↔ ':' ∉ yes.toList := by
  constructor
  · intro hhalf hcolon
    obtain ⟨first, rest, rfl, hbranches⟩ := branches_of_mem hfree hcolon no
    rw [half, hbranches] at hhalf
    -- What is cut off the first branch is missing there or is too much in the second.
    cases accepted with
    | true =>
      have hlength := congrArg (fun s => s.toList.length) hhalf
      simp at hlength
    | false =>
      have hlength := congrArg (fun s => s.toList.length) hhalf
      simp at hlength
      omega
  · intro hcolon
    rw [half, branches_of_not_mem hfree hcolon]

end Stencil.Flow
