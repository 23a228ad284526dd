import Stencil.Proofs.Text.Parts
import Stencil.Text.Integer

/-!
# Whole Numbers and Their Texts

A text stands for a number of 64 bits if it is a sign, or none, with digits behind it, and what these
count to is within the bounds.  A number within the bounds is read back from its decimal text, blanks
around it or not.

Main statements: `int64?_eq_some_iff` and `isInt64_toString`.
-/

namespace Stencil.Text

/-! ## §1 Bounds -/

theorem minInt64_eq : minInt64 = -9223372036854775808 := by decide

theorem maxInt64_eq : maxInt64 = 9223372036854775807 := by decide

theorem clampInt64_bounds (n : Int) : minInt64 ≤ clampInt64 n ∧ clampInt64 n ≤ maxInt64 := by
  rw [clampInt64, minInt64_eq, maxInt64_eq]
  omega

/-! ## §2 Digits -/

/-- Whether a text is digits that count to a number, the last one for the ones. -/
def IsDigits (cs : List Char) (n : Nat) : Prop :=
  cs ≠ [] ∧ (∀ c ∈ cs, c.isDigit = true) ∧ n = Nat.ofDigitChars 10 cs 0

theorem natOfDigits?_eq_some_iff {cs : List Char} {n : Nat} :
    natOfDigits? cs = some n ↔ IsDigits cs n := by
  have hvalue : cs.foldl (fun n c => n * 10 + (c.toNat - 48)) 0 = Nat.ofDigitChars 10 cs 0 := by
    simp only [Nat.ofDigitChars, Nat.mul_comm 10]
    rfl
  rw [natOfDigits?, hvalue, IsDigits]
  split
  · rename_i h
    rw [Bool.and_eq_true, List.all_eq_true] at h
    simp only [Option.some_inj, ne_eq]
    exact ⟨fun heq => ⟨by simpa using h.1, h.2, heq.symm⟩, fun hd => hd.2.2.symm⟩
  · rename_i h
    refine ⟨fun heq => absurd heq (by simp), fun ⟨hne, hall, _⟩ => absurd ?_ h⟩
    rw [Bool.and_eq_true, List.all_eq_true]
    exact ⟨by simpa using hne, hall⟩

theorem IsDigits.ne_sign {cs ds : List Char} {n : Nat} (h : IsDigits cs n) {sign : Char}
    (hsign : sign.isDigit = false) : cs ≠ sign :: ds := by
  rintro rfl
  exact absurd (hsign.symm.trans (h.2.1 sign List.mem_cons_self)) (by simp)

theorem isDigits_toDigits (n : Nat) : IsDigits (Nat.toDigits 10 n) n :=
  ⟨Nat.toDigits_ne_nil, fun _ => Nat.isDigit_of_mem_toDigits (by decide) (by decide),
    Nat.ofDigitChars_ten_toDigits.symm⟩

/-! ## §3 Numbers of 64 bits -/

/-- Whether a text stands for a number of 64 bits: it is digits, behind a sign or none, and what these
count to, or its negative behind a minus, is the number and within the bounds. -/
structure IsInt64 (cs : List Char) (n : Int) : Prop where
  /-- It is not below the least number. -/
  least : minInt64 ≤ n
  /-- It is not above the greatest number. -/
  greatest : n ≤ maxInt64
  /-- The digits count to it, or behind a minus to its negative. -/
  digits : ∃ ds k, IsDigits ds k ∧
    (((cs = ds ∨ cs = '+' :: ds) ∧ n = k) ∨ (cs = '-' :: ds ∧ n = -k))

/-- **What is read as a number of 64 bits.** -/
theorem int64?_eq_some_iff {cs : List Char} {n : Int} : int64? cs = some n ↔ IsInt64 cs n := by
  have hminus : '-'.isDigit = false := by decide
  have hplus : '+'.isDigit = false := by decide
  have hread (n? : Option Int) (hn? : n? = some n ↔ ∃ ds k, IsDigits ds k ∧
      (((cs = ds ∨ cs = '+' :: ds) ∧ n = k) ∨ (cs = '-' :: ds ∧ n = -k))) :
      n?.filter (fun n => minInt64 ≤ n && n ≤ maxInt64) = some n ↔ IsInt64 cs n := by
    rw [Option.filter_eq_some_iff, hn?, Bool.and_eq_true, decide_eq_true_eq, decide_eq_true_eq]
    exact ⟨fun ⟨hdigits, hleast, hgreatest⟩ => ⟨hleast, hgreatest, hdigits⟩,
      fun ⟨hleast, hgreatest, hdigits⟩ => ⟨hdigits, hleast, hgreatest⟩⟩
  unfold int64?
  refine hread _ ?_
  -- The first character tells which of the three forms the text can have.
  split
  · rename_i ds
    have hnegative : (natOfDigits? ds).map (fun k : Nat => -(k : Int)) = some n ↔
        ∃ k, IsDigits ds k ∧ -(k : Int) = n := by
      simp only [Option.map_eq_some_iff, natOfDigits?_eq_some_iff]
    refine .trans (by cases natOfDigits? ds <;> rfl) (hnegative.trans ?_)
    constructor
    · rintro ⟨k, hk, rfl⟩
      exact ⟨ds, k, hk, .inr ⟨rfl, rfl⟩⟩
    · rintro ⟨ds', k, hk, ⟨rfl | hcs, -⟩ | ⟨hcs, rfl⟩⟩
      · exact absurd rfl (hk.ne_sign hminus)
      · exact absurd hcs (by simp)
      · cases hcs
        exact ⟨k, hk, rfl⟩
  · rename_i ds
    simp only [Option.map_eq_some_iff, natOfDigits?_eq_some_iff]
    constructor
    · rintro ⟨k, hk, rfl⟩
      exact ⟨ds, k, hk, .inl ⟨.inr rfl, rfl⟩⟩
    · rintro ⟨ds', k, hk, ⟨rfl | hcs, rfl⟩ | ⟨hcs, -⟩⟩
      · exact absurd rfl (hk.ne_sign hplus)
      · cases hcs
        exact ⟨k, hk, rfl⟩
      · exact absurd hcs (by simp)
  · rename_i hnotMinus hnotPlus
    simp only [Option.map_eq_some_iff, natOfDigits?_eq_some_iff]
    constructor
    · rintro ⟨k, hk, rfl⟩
      exact ⟨cs, k, hk, .inl ⟨.inl rfl, rfl⟩⟩
    · rintro ⟨ds', k, hk, ⟨rfl | hcs, rfl⟩ | ⟨hcs, -⟩⟩
      · exact ⟨k, hk, rfl⟩
      · exact absurd hcs (hnotPlus ds')
      · exact absurd hcs (hnotMinus ds')

/-! ## §4 Decimal texts -/

/-- The decimal text of a number is its digits, behind a minus if it is negative. -/
theorem exists_toString (n : Int) : ∃ ds k, IsDigits ds k ∧
    (((toString n).toList = ds ∧ n = k) ∨ ((toString n).toList = '-' :: ds ∧ n = -k)) := by
  cases n with
  | ofNat k => exact ⟨_, k, isDigits_toDigits k, .inl ⟨Nat.toList_repr, rfl⟩⟩
  | negSucc k =>
    refine ⟨_, k + 1, isDigits_toDigits (k + 1), .inr ⟨?_, rfl⟩⟩
    change ("-" ++ Nat.repr (k + 1)).toList = _
    rw [String.toList_append, Nat.toList_repr]
    rfl

/-- A number within the bounds is read from its decimal text. -/
theorem isInt64_toString {n : Int} (hleast : minInt64 ≤ n) (hgreatest : n ≤ maxInt64) :
    IsInt64 (toString n).toList n := by
  obtain ⟨ds, k, hk, ⟨htext, hn⟩ | hnegative⟩ := exists_toString n
  · exact ⟨hleast, hgreatest, ds, k, hk, .inl ⟨.inl htext, hn⟩⟩
  · exact ⟨hleast, hgreatest, ds, k, hk, .inr hnegative⟩

theorem of_mem_toString {n : Int} {c : Char} (hc : c ∈ (toString n).toList) :
    c = '-' ∨ c.isDigit = true := by
  obtain ⟨ds, k, ⟨-, hall, -⟩, ⟨htext, -⟩ | ⟨htext, -⟩⟩ := exists_toString n
  · exact .inr (hall c (htext ▸ hc))
  · rw [htext] at hc
    exact (List.mem_cons.1 hc).imp_right (hall c)

theorem trimChars_toString (n : Int) : trimChars (toString n).toList = (toString n).toList := by
  have hchar : ∀ c ∈ (toString n).toList, isBlank c = false := by
    intro c hc
    rcases of_mem_toString hc with rfl | hdigit
    · decide
    · rw [Char.isDigit_iff_toNat] at hdigit
      unfold isBlank
      grind
  exact trimChars_eq_self_iff.2 ⟨fun c hc => hchar c (List.mem_of_mem_head? hc),
    fun c hc => hchar c (List.mem_of_mem_getLast? hc)⟩

end Stencil.Text
