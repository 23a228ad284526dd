import Mathlib.Data.List.TakeWhile
import Stencil.Template.Scanner

/-!
# Openings of Tokens

The part of a token before its body is read the same way whatever follows it.  The scanners of that
part look at no more than the part they read and, where a run ends at the first character that does not
fit, at one character more, of which only its class matters.

An `Opening` packages what comes out of this: a written name with its arguments, together with the
fact that it is read back in front of closing braces and in front of a body.

Main statement: `scanHeader_append` (a name and arguments are read back in front of either end).
-/

namespace Stencil.Template

open Stencil.Text

/-! ## §1 Characters that end an argument -/

/-- The characters that may follow an argument: a blank, a colon, a closing brace. -/
def isStop (c : Char) : Bool := isBlank c || c == ':' || c == '}'

-- The classes of characters exclude each other: nothing that may follow an argument belongs to one.

theorem isBareChar_of_isStop {c : Char} (h : isStop c = true) : isBareChar c = false := by
  simp only [isStop, Bool.or_eq_true, beq_iff_eq] at h
  rcases h with (h | rfl) | rfl
  · simp [isBareChar, h]
  · decide
  · decide

theorem isStop_of_isBareChar {c : Char} (h : isBareChar c = true) : isStop c = false := by
  cases hs : isStop c with
  | false => rfl
  | true => rw [isBareChar_of_isStop hs] at h; exact absurd h (by simp)

/-- The characters that are neither a quote nor an equals sign, which stops are not either. -/
theorem ne_of_isStop {c : Char} (h : isStop c = true) : c ≠ '"' ∧ c ≠ '=' := by
  constructor
  · rintro rfl
    exact absurd h (by decide)
  · rintro rfl
    exact absurd h (by decide)

theorem ne_of_isBlank {c : Char} (h : isBlank c = true) : c ≠ '}' ∧ c ≠ ':' := by
  constructor
  · rintro rfl
    exact absurd h (by decide)
  · rintro rfl
    exact absurd h (by decide)

private theorem isBlank_ascii {c : Char} (h : isBlank c = true) (hlt : c.toNat < 128) :
    c.toNat ≤ 32 := by
  simp only [isBlank, Bool.or_eq_true, Bool.and_eq_true, decide_eq_true_eq, beq_iff_eq] at h
  omega

private theorem isAlphanum_ne {c : Char} (h : c.isAlphanum = true) :
    isBlank c = false ∧ c ≠ ':' ∧ c ≠ '}' := by
  -- Said by code points: the letters and digits of ASCII lie above its blanks.
  delta Char.isAlphanum Char.isAlpha Char.isUpper Char.isLower Char.isDigit at h
  simp only [Bool.or_eq_true, Bool.and_eq_true, decide_eq_true_eq, ge_iff_le,
    UInt32.le_iff_toNat_le] at h
  change ((65 ≤ c.toNat ∧ c.toNat ≤ 90) ∨ (97 ≤ c.toNat ∧ c.toNat ≤ 122)) ∨
    (48 ≤ c.toNat ∧ c.toNat ≤ 57) at h
  refine ⟨?_, ?_, ?_⟩
  · cases hc : isBlank c with
    | false => rfl
    | true =>
      have := isBlank_ascii hc (by omega)
      omega
  · rintro rfl
    exact absurd h (by decide)
  · rintro rfl
    exact absurd h (by decide)

theorem isStop_of_isNameChar {c : Char} (h : isNameChar c = true) : isStop c = false := by
  simp only [isNameChar, Bool.or_eq_true, beq_iff_eq] at h
  rcases h with ((h | rfl) | rfl) | rfl
  · obtain ⟨hblank, hcolon, hbrace⟩ := isAlphanum_ne h
    simp [isStop, hblank, hcolon, hbrace]
  · decide
  · decide
  · decide

theorem isNameChar_of_isKeyChar {c : Char} (h : isKeyChar c = true) : isNameChar c = true := by
  simp only [isKeyChar, Bool.or_eq_true] at h
  simp only [isNameChar, Bool.or_eq_true]
  exact Or.inl h

theorem isNameChar_of_isStop {c : Char} (h : isStop c = true) : isNameChar c = false := by
  cases hn : isNameChar c with
  | false => rfl
  | true =>
    rw [isStop_of_isNameChar hn] at h
    exact absurd h (by simp)

theorem isKeyChar_of_isStop {c : Char} (h : isStop c = true) : isKeyChar c = false := by
  cases hk : isKeyChar c with
  | false => rfl
  | true =>
    rw [isStop_of_isNameChar (isNameChar_of_isKeyChar hk)] at h
    exact absurd h (by simp)

/-! ## §2 Runs of characters -/

theorem takeWhile_append_cons {p : Char → Bool} {run : List Char} {c : Char} (rest : List Char)
    (hrun : ∀ a ∈ run, p a = true) (hc : p c = false) :
    (run ++ c :: rest).takeWhile p = run := by
  rw [List.takeWhile_append_of_pos hrun, List.takeWhile_cons_of_neg (by simp [hc]), List.append_nil]

theorem dropWhile_append_cons {p : Char → Bool} {run : List Char} {c : Char} (rest : List Char)
    (hrun : ∀ a ∈ run, p a = true) (hc : p c = false) :
    (run ++ c :: rest).dropWhile p = c :: rest := by
  rw [List.dropWhile_append_of_pos hrun, List.dropWhile_cons_of_neg (by simp [hc])]

/-! ## §3 Arguments -/

/-- A word in front of a stop holds no equals sign after the characters of a key. -/
private theorem dropWhile_key_word {word : List Char} {c d : Char} {rest tail : List Char}
    (hword : ∀ a ∈ word, isBareChar a = true) (hc : isStop c = true)
    (h : (word ++ c :: rest).dropWhile isKeyChar = d :: tail) : d ≠ '=' := by
  induction word with
  | nil =>
    rw [List.nil_append, List.dropWhile_cons_of_neg (by simp [isKeyChar_of_isStop hc])] at h
    rw [← (List.cons.inj h).1]
    exact (ne_of_isStop hc).2
  | cons b word ih =>
    rw [List.cons_append, List.dropWhile_cons] at h
    split at h
    · exact ih (fun a ha => hword a (List.mem_cons_of_mem _ ha)) h
    · -- The run of key characters ends in the word, at a bare character.
      rintro rfl
      have hb := hword b List.mem_cons_self
      rw [(List.cons.inj h).1] at hb
      exact absurd hb (by decide)

theorem scanArgument_word {b c : Char} {word : List Char} (rest : List Char)
    (hword : ∀ a ∈ b :: word, isBareChar a = true) (hc : isStop c = true) :
    scanArgument (b :: word ++ c :: rest) = some (.word (.ofList (b :: word)), c :: rest) := by
  have hbare := isBareChar_of_isStop hc
  unfold scanArgument
  split
  · -- The word starts with no quote.
    rename_i tail htail
    have hb := hword b List.mem_cons_self
    rw [(List.cons.inj htail).1] at hb
    exact absurd hb (by decide)
  · dsimp only
    split
    · -- What follows its key characters is no equals sign, so there is no key.
      rename_i hkey heq
      exact absurd rfl (dropWhile_key_word hword hc heq)
    · rw [takeWhile_append_cons rest hword hbare, dropWhile_append_cons rest hword hbare]

theorem scanArgument_key {k : Char} {key : List Char} (hkey : ∀ a ∈ k :: key, isKeyChar a = true)
    (rest : List Char) :
    scanArgument (k :: key ++ '=' :: rest) = (scanValue rest).map fun (value, after) =>
      (.named (.ofList (k :: key)) (.ofList value), after) := by
  have hequals : isKeyChar '=' = false := by decide
  unfold scanArgument
  split
  · rename_i tail htail
    have hk := hkey k List.mem_cons_self
    rw [(List.cons.inj htail).1] at hk
    exact absurd hk (by decide)
  · dsimp only
    rw [takeWhile_append_cons rest hkey hequals, dropWhile_append_cons rest hkey hequals]
    rfl

theorem scanArgument_named {k : Char} {key value rest after : List Char}
    (hkey : ∀ a ∈ k :: key, isKeyChar a = true) (hvalue : scanValue rest = some (value, after)) :
    scanArgument (k :: key ++ '=' :: rest) =
      some (.named (.ofList (k :: key)) (.ofList value), after) := by
  rw [scanArgument_key hkey, hvalue]
  rfl

/-! ## §4 Headers -/

/-- The characters that end a header. -/
def HeaderEnd.chars : HeaderEnd → List Char
  | closed => ['}', '}']
  | colon => [':']

/-- A header end starts with a stop that is not blank. -/
theorem HeaderEnd.chars_eq (e : HeaderEnd) :
    ∃ c rest, e.chars = c :: rest ∧ isStop c = true ∧ isBlank c = false := by
  cases e with
  | closed => exact ⟨'}', ['}'], rfl, by decide, by decide⟩
  | colon => exact ⟨':', [], rfl, by decide, by decide⟩

theorem scanArguments_ending (args : Arguments) (e : HeaderEnd) (rest : List Char) :
    scanArguments args (e.chars ++ rest) = some (args, e, rest) := by
  cases e <;> simp [HeaderEnd.chars, scanArguments]

theorem scanArguments_blank_ending {args : Arguments} {c : Char} {cs rest : List Char}
    {e : HeaderEnd} (hc : isBlank c = true) (hcs : trimLeft cs = e.chars ++ rest) :
    scanArguments args (c :: cs) = some (args, e, rest) := by
  obtain ⟨hbrace, hcolon⟩ := ne_of_isBlank hc
  rw [scanArguments]
  · cases e with
    | closed => simp only [hc, ↓reduceIte]; split <;> simp_all [HeaderEnd.chars]
    | colon => simp only [hc, ↓reduceIte]; split <;> simp_all [HeaderEnd.chars]
  · simp [hbrace]
  · simp [hcolon]

/-- After blanks an argument is read, if that can be done, and then the others. -/
theorem scanArguments_blank {args : Arguments} {c d : Char} {cs tail : List Char}
    (hc : isBlank c = true) (hcs : trimLeft cs = d :: tail) (hd : isStop d = false) :
    scanArguments args (c :: cs) = (scanArgument (d :: tail)).bind fun (a, rest) =>
      scanArguments (args.add a) rest := by
  obtain ⟨hbrace, hcolon⟩ := ne_of_isBlank hc
  have hdbrace : d ≠ '}' := by
    rintro rfl
    exact absurd hd (by decide)
  have hdcolon : d ≠ ':' := by
    rintro rfl
    exact absurd hd (by decide)
  rw [scanArguments]
  · simp only [hc, ↓reduceIte]
    split
    · rename_i after heq
      rw [hcs] at heq
      exact absurd (List.cons.inj heq).1 hdbrace
    · rename_i after heq
      rw [hcs] at heq
      exact absurd (List.cons.inj heq).1 hdcolon
    · rw [← hcs]
      split
      · rename_i hnone
        rw [hnone]
        rfl
      · rename_i a rest hsome
        rw [hsome]
        rfl
  · simp [hbrace]
  · simp [hcolon]

/-- After blanks an argument is read, and then the others. -/
theorem scanArguments_blank_argument {args : Arguments} {c d : Char} {cs tail rest : List Char}
    {a : Argument} (hc : isBlank c = true) (hcs : trimLeft cs = d :: tail)
    (hd : isStop d = false) (ha : scanArgument (d :: tail) = some (a, rest)) :
    scanArguments args (c :: cs) = scanArguments (args.add a) rest := by
  rw [scanArguments_blank hc hcs hd, ha]
  rfl

theorem trimLeft_append_cons {blanks : List Char} {c : Char} (rest : List Char)
    (hblanks : ∀ a ∈ blanks, isBlank a = true) (hc : isBlank c = false) :
    trimLeft (blanks ++ c :: rest) = c :: rest :=
  dropWhile_append_cons rest hblanks hc

theorem exists_blanks (cs : List Char) :
    ∃ blanks, cs = blanks ++ trimLeft cs ∧ ∀ a ∈ blanks, isBlank a = true :=
  ⟨cs.takeWhile isBlank, (List.takeWhile_append_dropWhile).symm,
    fun _ ha => List.mem_takeWhile_imp ha⟩

/-- What follows a name or an argument, blanks or the end of the header, starts with a stop. -/
theorem exists_stop {used : List Char} (h : ∀ c tail, used = c :: tail → isBlank c = true)
    (e : HeaderEnd) (rest : List Char) :
    ∃ f tail, used ++ e.chars ++ rest = f :: tail ∧ isStop f = true := by
  cases used with
  | nil =>
    obtain ⟨f, tail, hf, hstop, _⟩ := e.chars_eq
    exact ⟨f, tail ++ rest, by simp [hf], hstop⟩
  | cons f tail => exact ⟨f, tail ++ e.chars ++ rest, rfl, by simp [isStop, h f tail rfl]⟩

theorem scanHeader_append {c : Char} {name used : List Char} {args : Arguments}
    (hname : ∀ a ∈ c :: name, isNameChar a = true)
    (hblank : ∀ f tail, used = f :: tail → isBlank f = true)
    (hread : ∀ e rest, scanArguments .none (used ++ HeaderEnd.chars e ++ rest) =
      some (args, e, rest))
    (e : HeaderEnd) (rest : List Char) :
    scanHeader (c :: name ++ used ++ e.chars ++ rest) =
      some (⟨.ofList (c :: name), args, e⟩, rest) := by
  -- What follows the name starts with a stop, so the name ends there.
  obtain ⟨f, tail, hf, hstop⟩ := exists_stop hblank e rest
  have hend := isNameChar_of_isStop hstop
  have hcs : c :: name ++ used ++ e.chars ++ rest = c :: name ++ f :: tail := by
    rw [← hf]
    simp
  unfold scanHeader
  rw [hcs, takeWhile_append_cons tail hname hend, dropWhile_append_cons tail hname hend]
  simp only [← hf, hread e rest, Option.map_some]

/-- A written name with its arguments: it is read back in front of closing braces and in front of a
body. -/
structure Opening where
  /-- The directive's name. -/
  name : String
  /-- The arguments. -/
  args : Arguments
  /-- How they are written, after the opening braces. -/
  chars : List Char
  /-- They are read back in front of either end. -/
  reads : ∀ (e : HeaderEnd) (rest : List Char),
    scanHeader (chars ++ e.chars ++ rest) = some (⟨name, args, e⟩, rest)

/-- A valid name is an opening without arguments. -/
theorem exists_opening_of_isValidName {name : String} (h : isValidName name = true) :
    ∃ o : Opening, o.name = name ∧ o.args = .none ∧ o.chars = name.toList := by
  simp only [isValidName, Bool.and_eq_true, List.all_eq_true] at h
  obtain ⟨hne, hall⟩ := h
  cases hname : name.toList with
  | nil =>
    have hempty : name = "" := String.toList_inj.1 (hname.trans (by simp))
    rw [hempty] at hne
    exact absurd hne (by decide)
  | cons c cs =>
    rw [hname] at hall
    have hread (e : HeaderEnd) (rest : List Char) :
        scanHeader (c :: cs ++ [] ++ e.chars ++ rest) = some (⟨.ofList (c :: cs), .none, e⟩, rest) :=
      scanHeader_append hall (by simp) (fun e rest => scanArguments_ending .none e rest) e rest
    refine ⟨⟨.ofList (c :: cs), .none, c :: cs, fun e rest => by simpa using hread e rest⟩,
      ?_, rfl, rfl⟩
    change String.ofList (c :: cs) = name
    rw [← hname, String.ofList_toList]

end Stencil.Template
