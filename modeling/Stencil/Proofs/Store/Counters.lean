import Stencil.Proofs.Store.Runs
import Stencil.Proofs.Text.Integer

/-!
# Counters Are the Tallies of Their Steps

A counter stands at the number that the text under its key stands for, blanks around it dropped, and at
zero if that is none.  Each step adds one or takes one away and stays within the bounds of 64 bits.  The
calls of the store keep the counters apart: what a run of calls makes of a counter is the fold of the steps
of that counter alone, and whatever reads it next gives the number whose text the last step gave.

Main statements: `standsAt_iff`, `Call.perform_counted` (one call) and `counters_tallied` (a run).
-/

namespace Stencil.Store

open Text

variable {σ : Type}

/-! ## §1 What a counter stands at -/

/-- What is read of a counter in items. -/
def counterIn (d : Items) (id : String) : Int := counterValue ((d.get? (counterKey id)).getD "0")

/-- Whether a counter stands at a number: the text under its key stands for it, without the blanks around
it; or it is zero, and no text there stands for a number. -/
def StandsAt (d : Items) (id : String) (n : Int) : Prop :=
  (∃ raw, d.get? (counterKey id) = some raw ∧ IsInt64 (trimChars raw.toList) n) ∨
    (n = 0 ∧ ∀ raw, d.get? (counterKey id) = some raw → ∀ m, ¬IsInt64 (trimChars raw.toList) m)

theorem standsAt_iff {d : Items} {id : String} {n : Int} : StandsAt d id n ↔ n = counterIn d id := by
  unfold StandsAt counterIn
  simp only [← int64?_eq_some_iff]
  cases d.get? (counterKey id) with
  | none =>
    -- Where nothing is, a zero is read.
    have hzero : counterValue "0" = 0 := by decide
    simp [hzero]
  | some raw =>
    simp only [Option.some_inj, exists_eq_left', forall_eq', Option.getD_some, counterValue]
    cases int64? (trimChars raw.toList) with
    | none => simp
    | some m => simp [eq_comm]

theorem counterIn_bounds (d : Items) (id : String) :
    minInt64 ≤ counterIn d id ∧ counterIn d id ≤ maxInt64 := by
  rcases standsAt_iff.2 rfl with ⟨raw, -, hraw⟩ | ⟨hzero, -⟩
  · exact ⟨hraw.least, hraw.greatest⟩
  · rw [hzero]
    decide

theorem counterValue_toString {n : Int} (h : minInt64 ≤ n ∧ n ≤ maxInt64) :
    counterValue (toString n) = n := by
  rw [counterValue, trimChars_toString, int64?_eq_some_iff.2 (isInt64_toString h.1 h.2)]
  rfl

theorem counterKey_inj {id id' : String} : counterKey id = counterKey id' ↔ id = id' := by
  refine ⟨fun h => ?_, fun h => h ▸ rfl⟩
  have hlist := congrArg String.toList h
  rw [counterKey, counterKey, String.toList_append, String.toList_append] at hlist
  exact String.toList_inj.1 (List.append_cancel_left hlist)

theorem counterIn_insert {n : Int} (h : minInt64 ≤ n ∧ n ≤ maxInt64) (d : Items) (id id' : String) :
    counterIn (d.insert (counterKey id) (toString n)) id' =
      if id = id' then n else counterIn d id' := by
  rw [counterIn, counterIn, Dict.get?_insert]
  by_cases hid : id' = id
  · rw [if_pos (counterKey_inj.2 hid), if_pos hid.symm]
    exact counterValue_toString h
  · rw [if_neg (mt counterKey_inj.1 hid), if_neg (Ne.symm hid)]

/-! ## §2 Steps -/

/-- What a call adds to a counter, if it steps that one. -/
def Call.delta? (id : String) : Call → Option Int
  | increment id' => if id' = id then some 1 else none
  | decrement id' => if id' = id then some (-1) else none
  | _ => none

/-- What a list of calls makes of a counter: of the calls that step it, one after the other adds one or
takes one away, and stays within the bounds. -/
def tally (id : String) (start : Int) (h : List Call) : Int :=
  (h.filterMap (Call.delta? id)).foldl (fun n delta => clampInt64 (n + delta)) start

section Tally

variable {id : String} {start : Int}

@[simp] theorem tally_nil : tally id start [] = start := rfl

theorem tally_append (h h' : List Call) : tally id start (h ++ h') = tally id (tally id start h) h' := by
  simp only [tally, List.filterMap_append, List.foldl_append]

theorem tally_singleton (c : Call) : tally id start [c] =
    match c.delta? id with
    | some delta => clampInt64 (start + delta)
    | none => start := by
  unfold tally
  cases h : c.delta? id <;> simp [h]

theorem tally_of_forall_none {h : List Call} (hnone : ∀ c ∈ h, c.delta? id = none) :
    tally id start h = start := by
  rw [tally, List.filterMap_eq_nil_iff.2 hnone, List.foldl_nil]

theorem tally_bounds (hstart : minInt64 ≤ start ∧ start ≤ maxInt64) (h : List Call) :
    minInt64 ≤ tally id start h ∧ tally id start h ≤ maxInt64 := by
  induction h using List.reverseRecOn with
  | nil => exact hstart
  | append_singleton h c ih =>
    rw [tally_append, tally_singleton]
    split
    · exact clampInt64_bounds _
    · exact ih

end Tally

/-! ## §3 One call -/

/-- What a call does to the counters, from the items before it to those after it. -/
structure Counted (c : Call) (d : Items) (a : Answer) (d' : Items) : Prop where
  /-- Every counter stands where its step leaves it. -/
  value : ∀ id, counterIn d' id = tally id (counterIn d id) [c]
  /-- A step gives the text of the new number and leaves every other key. -/
  stepped : ∀ id delta, c.delta? id = some delta →
    a = .text (toString (counterIn d' id)) ∧ ∀ key ≠ counterKey id, d'.get? key = d.get? key
  /-- Reading a counter gives its number. -/
  read : ∀ id, c = .counter id → a = .number (counterIn d id)

/-- Calls about variables leave the counters. -/
theorem Counted.of_isVariable {c : Call} (hc : c.isVariable = true) {d d' : Items} (a : Answer)
    (h : ∀ id, d'.get? (counterKey id) = d.get? (counterKey id)) : Counted c d a d' := by
  have hdelta (id : String) : c.delta? id = none := by
    cases c <;> first | rfl | exact absurd hc (by simp [Call.isVariable])
  refine ⟨fun id => ?_, fun id delta hstep => ?_, ?_⟩
  · rw [tally_singleton, hdelta, counterIn, counterIn, h]
  · exact absurd ((hdelta id).symm.trans hstep) (by simp)
  · rintro id rfl
    exact absurd hc (by simp [Call.isVariable])

/-- A step puts the text of the new number under the key of its counter. -/
theorem Counted.of_step {c : Call} {id : String} {delta : Int}
    (hc : ∀ id', c.delta? id' = if id = id' then some delta else none) (d : Items) :
    Counted c d (.text (toString (clampInt64 (counterIn d id + delta))))
      (d.insert (counterKey id) (toString (clampInt64 (counterIn d id + delta)))) := by
  have hvalue (id' : String) := counterIn_insert (clampInt64_bounds (counterIn d id + delta)) d id id'
  refine ⟨fun id' => ?_, fun id' delta' hstep => ?_, ?_⟩
  · rw [hvalue, tally_singleton, hc]
    by_cases hid : id = id'
    · rw [if_pos hid, if_pos hid, hid]
    · rw [if_neg hid, if_neg hid]
  · rw [hc] at hstep
    split at hstep
    · rename_i hid
      subst hid
      exact ⟨by rw [hvalue, if_pos rfl], fun key hkey => by rw [Dict.get?_insert, if_neg hkey]⟩
    · exact absurd hstep (by simp)
  · rintro id' rfl
    have := hc id
    rw [if_pos rfl] at this
    exact absurd this (by simp [Call.delta?])

section Memory

variable {d : Items} {records : List Record} (hd : recordsIn d = .ok records)
include hd

/-- **One call on items in memory.**  If the record list can be read it succeeds, the record list can still
be read, and it counts. -/
theorem Call.perform_counted (c : Call) : ∃ a d' records', c.perform Backend.memory d = .ok a d' ∧
    recordsIn d' = .ok records' ∧ Counted c d a d' := by
  have hput (records' : List Record) (id : String) :=
    get?_withRecords_counter d records' id
  cases c with
  | set name value =>
    exact ⟨.done, _, _, bind_of_ok (set_memory hd name value), recordsIn_withRecords d _,
      .of_isVariable rfl _ (hput _)⟩
  | get name =>
    exact ⟨.text (valueIn records name), d, records, bind_of_ok (get_memory hd name), hd,
      .of_isVariable rfl _ fun _ => rfl⟩
  | reset name =>
    have hreset := reset_memory hd name
    cases hfound : resetIn? records name with
    | none =>
      rw [hfound] at hreset
      exact ⟨.text "", d, records, bind_of_ok hreset, hd, .of_isVariable rfl _ fun _ => rfl⟩
    | some found =>
      rw [hfound] at hreset
      exact ⟨.text found.1, _, found.2, bind_of_ok hreset, recordsIn_withRecords d _,
        .of_isVariable rfl _ (hput _)⟩
  | delete name =>
    have hdelete := delete_memory hd name
    split at hdelete
    · exact ⟨.done, _, _, bind_of_ok hdelete, recordsIn_withRecords d _,
        .of_isVariable rfl _ (hput _)⟩
    · exact ⟨.done, d, records, bind_of_ok hdelete, hd, .of_isVariable rfl _ fun _ => rfl⟩
  | list =>
    exact ⟨.records records, d, records, bind_of_ok (list_memory hd), hd,
      .of_isVariable rfl _ fun _ => rfl⟩
  | increment id =>
    exact ⟨_, _, records, bind_of_ok (step_memory id 1 d), by simp [hd], .of_step (fun _ => rfl) d⟩
  | decrement id =>
    exact ⟨_, _, records, bind_of_ok (step_memory id (-1) d), by simp [hd],
      .of_step (fun _ => rfl) d⟩
  | counter id =>
    refine ⟨.number (counterIn d id), d, records, bind_of_ok (counter_memory id d), hd,
      fun id' => (tally_of_forall_none (by simp [Call.delta?])).symm,
      fun id' delta hstep => absurd hstep (by simp [Call.delta?]), ?_⟩
    rintro id' ⟨⟩
    rfl

end Memory

/-! ## §4 Runs -/

/-- What a list of calls does to the counters, from the items before the first to those after the last. -/
structure Tallied (d : Items) (h : List Call) (answers : List Answer) (d' : Items) : Prop where
  /-- Every counter stands where its own steps leave it. -/
  value : ∀ id : String, counterIn d' id = tally id (counterIn d id) h
  /-- It has been within the bounds all along. -/
  within : ∀ (id : String) (i : Nat), minInt64 ≤ tally id (counterIn d id) (h.take i) ∧
    tally id (counterIn d id) (h.take i) ≤ maxInt64
  /-- Every step gives the text of the number that it leaves. -/
  stepped : ∀ (i : Nat) (c : Call) (id : String) (delta : Int), h[i]? = some c →
    c.delta? id = some delta →
    answers[i]? = some (.text (toString (tally id (counterIn d id) (h.take (i + 1)))))
  /-- Reading a counter gives the number that the steps before have left. -/
  read : ∀ (i : Nat) (id : String), h[i]? = some (.counter id) →
    answers[i]? = some (.number (tally id (counterIn d id) (h.take i)))

namespace Tallied

variable {d d' d'' : Items} {h : List Call} {answers : List Answer} {c : Call} {a : Answer}

theorem nil : Tallied d [] [] d where
  value _ := rfl
  within id _ := by simpa using counterIn_bounds d id
  stepped := by simp
  read := by simp

theorem concat (ht : Tallied d h answers d') (hlength : answers.length = h.length)
    (hc : Counted c d' a d'') : Tallied d (h ++ [c]) (answers ++ [a]) d'' := by
  have hvalue (id : String) : counterIn d'' id = tally id (counterIn d id) (h ++ [c]) := by
    rw [hc.value, ht.value, tally_append]
  -- What was answered before stays; the last call finds what the calls before it have left.
  refine ⟨hvalue, fun id i => tally_bounds (counterIn_bounds d id) _, ?_, ?_⟩
  · intro i c' id delta hi hstep
    rcases getElem?_concat_eq_some_iff.1 hi with hi | ⟨rfl, rfl⟩
    · have hlt := lt_length_of_getElem? hi
      rw [List.take_append_of_le_length hlt, List.getElem?_append_left (hlength ▸ hlt)]
      exact ht.stepped i c' id delta hi hstep
    · rw [List.take_of_length_le (by simp), ← hvalue, ← (hc.stepped id delta hstep).1, ← hlength]
      simp
  · intro i id hi
    rcases getElem?_concat_eq_some_iff.1 hi with hi | ⟨rfl, hread⟩
    · have hlt := lt_length_of_getElem? hi
      rw [List.take_append_of_le_length (Nat.le_of_lt hlt), List.getElem?_append_left (hlength ▸ hlt)]
      exact ht.read i id hi
    · rw [List.take_left, ← ht.value, ← hc.read id hread, ← hlength]
      simp

/-- The next reading of a counter gives the number whose text a step of it gave. -/
theorem read_next (ht : Tallied d h answers d') {id : String} {i j : Nat} {delta : Int}
    (hi : h[i]? = some c) (hstep : c.delta? id = some delta) (hj : h[j]? = some (.counter id))
    (hij : i < j) (hbetween : ∀ (k : Nat) (c' : Call), i < k → k < j → h[k]? = some c' →
      c'.delta? id = none) :
    ∃ n, answers[i]? = some (.text (toString n)) ∧ answers[j]? = some (.number n) := by
  refine ⟨_, ht.stepped i c id delta hi hstep, ?_⟩
  -- The calls up to the reading are those up to the step, and others that leave the counter.
  have hsplit : h.take j = h.take (i + 1) ++ (h.take j).drop (i + 1) := by
    conv_lhs => rw [← List.take_append_drop (i + 1) (h.take j), List.take_take, Nat.min_eq_left hij]
  have hleft : ∀ c' ∈ (h.take j).drop (i + 1), c'.delta? id = none := by
    intro c' hmem
    obtain ⟨k, hk⟩ := List.mem_iff_getElem?.1 hmem
    rw [List.getElem?_drop, List.getElem?_take] at hk
    split at hk
    · exact hbetween (i + 1 + k) c' (by omega) ‹_› hk
    · exact absurd hk (by simp)
  rw [ht.read j id hj, hsplit, tally_append, tally_of_forall_none hleft]

end Tallied

section Backend

variable {b : Backend σ} {items? : σ → Option Items} (hb : b.Keeps items?) {s : σ} {d : Items}
  {records : List Record} (hs : items? s = some d) (hd : recordsIn d = .ok records)
include hb hs hd

/-- One call on a backend that keeps items. -/
theorem Call.perform_counts (c : Call) : ∃ a s' d' records', c.perform b s = .ok a s' ∧
    items? s' = some d' ∧ recordsIn d' = .ok records' ∧ Counted c d a d' := by
  obtain ⟨a, d', records', hperform, hd', hc⟩ := Call.perform_counted hd c
  obtain ⟨s', hs', hitems⟩ := c.perform_simulates hb s d hs
  rw [hperform] at hs' hitems
  exact ⟨a, s', d', records', hs', hitems, hd', hc⟩

/-- A run of calls on a store whose record list can be read. -/
theorem exists_tallied (h : List Call) : ∃ answers s' d' records',
    h.mapM (Call.perform b) s = .ok answers s' ∧ items? s' = some d' ∧
      recordsIn d' = .ok records' ∧ answers.length = h.length ∧ Tallied d h answers d' := by
  -- The last call of a run finds what the calls before it have left.
  induction h using List.reverseRecOn with
  | nil => exact ⟨[], s, d, records, rfl, hs, hd, rfl, .nil⟩
  | append_singleton h c ih =>
    obtain ⟨answers, s', d', records', hrun, hs', hd', hlength, ht⟩ := ih
    obtain ⟨a, s'', d'', records'', hperform, hs'', hd'', hc⟩ := Call.perform_counts hb hs' hd' c
    have hlast : [c].mapM (Call.perform b) s' = .ok [a] s'' :=
      mapM_cons_eq_ok.2 ⟨a, s'', [], hperform, rfl, rfl⟩
    exact ⟨answers ++ [a], s'', d'', records'', mapM_append_eq_ok.2 ⟨_, _, _, hrun, hlast, rfl⟩, hs'',
      hd'', by simp [hlength], ht.concat hlength hc⟩

/-- **Counters are the tallies of their steps.**  On a backend that keeps items, where the record list
can be read, every run of calls succeeds, and each counter starts at the one number that it stands at and
is counted by its own steps.  The next reading of a counter gives the number whose text a step of it gave.
After the run each counter reads so too, and a further step of it changes no other key. -/
theorem counters_tallied (h : List Call) : ∃ answers s' d',
    h.mapM (Call.perform b) s = .ok answers s' ∧ items? s' = some d' ∧
      (∀ id n, StandsAt d id n ↔ n = counterIn d id) ∧ Tallied d h answers d' ∧
      (∀ (id : String) (i j : Nat) (c : Call) (delta : Int), h[i]? = some c →
        c.delta? id = some delta → h[j]? = some (.counter id) → i < j →
        (∀ (k : Nat) (c' : Call), i < k → k < j → h[k]? = some c' → c'.delta? id = none) →
        ∃ n, answers[i]? = some (.text (toString n)) ∧ answers[j]? = some (.number n)) ∧
      (∀ id, ∃ s'', Store.counter b id s' = .ok (tally id (counterIn d id) h) s'' ∧
        items? s'' = some d') ∧
      ∀ c id delta, c.delta? id = some delta → ∃ s'' d'',
        c.perform b s' = .ok (.text (toString (tally id (counterIn d id) (h ++ [c])))) s'' ∧
          items? s'' = some d'' ∧ (∀ key ≠ counterKey id, d''.get? key = d'.get? key) ∧
          ∃ t, Store.counter b id s'' = .ok (tally id (counterIn d id) (h ++ [c])) t ∧
            items? t = some d'' := by
  obtain ⟨answers, s', d', records', hrun, hs', hd', -, ht⟩ := exists_tallied hb hs hd h
  -- Reading a counter leaves the items, so it can be done after the run and after any further step.
  have hread {s : σ} {d : Items} (id : String) (hs : items? s = some d) :
      ∃ s', Store.counter b id s = .ok (counterIn d id) s' ∧ items? s' = some d := by
    obtain ⟨s', hs', hitems⟩ := hb.counter id s d hs
    exact ⟨s', hs', hitems⟩
  refine ⟨answers, s', d', hrun, hs', fun id n => standsAt_iff, ht, ?_, fun id => ?_, ?_⟩
  · exact fun id i j c delta hi hstep hj hij hbetween => ht.read_next hi hstep hj hij hbetween
  · rw [← ht.value]
    exact hread id hs'
  · intro c id delta hstep
    obtain ⟨a, s'', d'', -, hperform, hs'', -, hc⟩ := Call.perform_counts hb hs' hd' c
    obtain ⟨rfl, hother⟩ := hc.stepped id delta hstep
    have hvalue : counterIn d'' id = tally id (counterIn d id) (h ++ [c]) := by
      rw [hc.value, ht.value, tally_append]
    rw [hvalue] at hperform
    obtain ⟨t, hcounter, hitems⟩ := hread id hs''
    exact ⟨s'', d'', hperform, hs'', hother, t, hvalue ▸ hcounter, hitems⟩

end Backend

/-- A counter is stepped past the greatest number of 64 bits, between calls about a variable of its name and
another counter. -/
theorem counters_tallied_greatest : ∃ answers s',
    [Call.increment "x", .set "x" "1", .decrement "y", .increment "x", .counter "x"].mapM
        (Call.perform Backend.memory) (Dict.empty.insert "id-x" " 9223372036854775806\t") =
          .ok answers s' ∧
      answers[2]? = some (.text "-1") ∧ answers[3]? = some (.text "9223372036854775807") ∧
      answers[4]? = some (.number 9223372036854775807) := by
  obtain ⟨answers, s', d', hrun, -, hstands, ht, -⟩ :=
    counters_tallied Backend.memory_keeps
      (d := Dict.empty.insert "id-x" " 9223372036854775806\t") rfl
      (show recordsIn _ = .ok [] from rfl)
      [Call.increment "x", .set "x" "1", .decrement "y", .increment "x", .counter "x"]
  have hx : 9223372036854775806 = counterIn (Dict.empty.insert "id-x" " 9223372036854775806\t") "x" :=
    (hstands "x" _).1 (.inl ⟨" 9223372036854775806\t", rfl, int64?_eq_some_iff.1 (by decide)⟩)
  have hy : 0 = counterIn (Dict.empty.insert "id-x" " 9223372036854775806\t") "y" :=
    (hstands "y" _).1 (.inr ⟨rfl, by simp [Dict.get?_insert, counterKey]⟩)
  refine ⟨answers, s', hrun, ?_, ?_, ?_⟩
  · rw [ht.stepped 2 (.decrement "y") "y" (-1) rfl (by decide), ← hy]
    rfl
  · rw [ht.stepped 3 (.increment "x") "x" 1 rfl (by decide), ← hx]
    rfl
  · rw [ht.read 4 "x" rfl, ← hx]
    rfl

end Stencil.Store
