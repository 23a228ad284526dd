import Stencil.Proofs.Dict
import Stencil.Proofs.Template.RawText

/-!
# Composed Tokens Read Back

A token that is composed of a name, arguments and a body is written with its quotes escaped, but not its
backslashes.  Read again, a backslash takes the character behind it.  So a value that holds a backslash
comes back shorter, or ends too early, or goes on over its closing quote.  In the last two cases the
reading is out of step from there on: it takes values for arguments and what is between them for values,
and never gets back.

Main statement: `readsBack_compose_iff`.
-/

namespace Stencil.Template

open Stencil.Text

/-! ## §1 Composed tokens -/

/-- Whether a token can be composed of some parts, whatever its values are. -/
structure Composable (name : String) (args : Arguments) (body : Option String) : Prop where
  /-- The name is one of a directive. -/
  name : isValidName name = true
  /-- The words are not empty and can stand without quotes. -/
  words : ∀ word ∈ args.positional, word.toList ≠ [] ∧ ∀ c ∈ word.toList, isBareChar c = true
  /-- The keys are not empty and hold characters of keys only. -/
  keys : ∀ entry ∈ args.named.entries, entry.1.toList ≠ [] ∧ ∀ c ∈ entry.1.toList, isKeyChar c = true
  /-- The body holds no braces. -/
  body : ∀ text ∈ body, BraceFree text.toList

instance (name : String) (args : Arguments) (body : Option String) :
    Decidable (Composable name args body) :=
  -- The characters of a word or key are gone through, and not all that there are.
  decidable_of_iff (isValidName name = true ∧
      (∀ word ∈ args.positional, word.toList ≠ [] ∧ word.toList.all isBareChar = true) ∧
      (∀ entry ∈ args.named.entries, entry.1.toList ≠ [] ∧ entry.1.toList.all isKeyChar = true) ∧
      ∀ text ∈ body, BraceFree text.toList) <| by
    simp only [List.all_eq_true]
    exact ⟨fun ⟨h₁, h₂, h₃, h₄⟩ => ⟨h₁, h₂, h₃, h₄⟩, fun ⟨h₁, h₂, h₃, h₄⟩ => ⟨h₁, h₂, h₃, h₄⟩⟩

/-- Whether the raw text of a token is cut into one token with its name, arguments and body. -/
def Token.ReadsBack (t : Token) : Prop :=
  ∃ u nested, pieces t.raw = [.token u nested] ∧ u.name = t.name ∧ u.args = t.args ∧ u.body = t.body

/-- Words as they are written. -/
def writeWords (words : List String) : List Char := words.flatMap fun word => ' ' :: word.toList

/-- Arguments as they are written. -/
def writeArguments (args : Arguments) : List Char :=
  writeWords args.positional ++ args.named.entries.flatMap Token.writeNamed

theorem toList_raw_compose (name : String) (args : Arguments) (body : Option String) :
    (Token.compose name args body).raw.toList =
      braced (name.toList ++ writeArguments args) (body.map String.toList) := by
  cases body <;>
    simp [Token.compose, Token.write, braced, writeArguments, writeWords, List.append_assoc]

/-! ## §2 Values without backslashes -/

@[simp] theorem escapeQuotes_nil : Token.escapeQuotes [] = [] := rfl

@[simp] theorem escapeQuotes_quote (value : List Char) :
    Token.escapeQuotes ('"' :: value) = '\\' :: '"' :: Token.escapeQuotes value := rfl

@[simp] theorem escapeQuotes_of_ne {c : Char} (h : c ≠ '"') (value : List Char) :
    Token.escapeQuotes (c :: value) = c :: Token.escapeQuotes value := by
  simp [Token.escapeQuotes, h]

/-- A value without backslashes is written between quotes by escaping the quotes. -/
theorem writtenQuoted_escapeQuotes {value : List Char} (h : '\\' ∉ value) :
    WrittenQuoted (Token.escapeQuotes value) value := by
  induction value with
  | nil => exact .nil
  | cons c value ih =>
    rw [List.mem_cons, not_or] at h
    have hrest := ih h.2
    by_cases hc : c = '"'
    · subst hc
      exact .escape '"' hrest
    · rw [escapeQuotes_of_ne hc]
      exact .char hc (Ne.symm h.1) hrest

theorem writtenQuoted_self {w : List Char} (h : ∀ c ∈ w, c ≠ '"' ∧ c ≠ '\\') : WrittenQuoted w w := by
  induction w with
  | nil => exact .nil
  | cons c w ih =>
    obtain ⟨hquote, hslash⟩ := h c List.mem_cons_self
    exact .char hquote hslash (ih fun d hd => h d (List.mem_cons_of_mem _ hd))

/-- The arguments one after the other: the words, and then the values under keys. -/
def Arguments.list (args : Arguments) : List Argument :=
  args.positional.map .word ++ args.named.entries.map fun entry => .named entry.1 entry.2

theorem Arguments.foldl_add_list (args : Arguments) : args.list.foldl .add .none = args := by
  -- The words go behind those there are, and leave the entries; the entries leave the words.
  have hwords (words : List String) (start : Arguments) :
      (words.map Argument.word).foldl Arguments.add start =
        ⟨start.positional ++ words, start.named⟩ := by
    induction words generalizing start with
    | nil => simp
    | cons word words ih =>
      rw [List.map_cons, List.foldl_cons, ih]
      simp [Arguments.add, Arguments.addWord]
  have hnamed (entries : List (String × String)) (start : Arguments) :
      (entries.map fun entry => Argument.named entry.1 entry.2).foldl Arguments.add start =
        ⟨start.positional, start.named.insertAll entries⟩ := by
    induction entries generalizing start with
    | nil => rfl
    | cons entry entries ih =>
      rw [List.map_cons, List.foldl_cons, ih]
      rfl
  rw [Arguments.list, List.foldl_append, hwords, hnamed]
  exact congrArg (Arguments.mk _) args.named.ofList_entries

/-- Arguments whose values hold no backslashes are written as the grammar says. -/
theorem writtenArguments {name : String} {args : Arguments} {body : Option String}
    (h : Composable name args body) (hvalues : ∀ entry ∈ args.named.entries, '\\' ∉ entry.2.toList) :
    WrittenArguments (writeArguments args) args.list := by
  have hblank : ∀ c ∈ [' '], isBlank c = true := List.forall_mem_singleton.2 (by decide)
  -- First the values under keys, and then the words in front of them.
  have hnamed : WrittenArguments (args.named.entries.flatMap Token.writeNamed)
      (args.named.entries.map fun entry => .named entry.1 entry.2) := by
    have hkeys := h.keys
    generalize args.named.entries = entries at hkeys hvalues
    induction entries with
    | nil => exact .nil (by simp)
    | cons entry entries ih =>
      obtain ⟨key, value⟩ := entry
      obtain ⟨hne, hchars⟩ := hkeys _ List.mem_cons_self
      have hvalue := writtenQuoted_escapeQuotes (hvalues _ List.mem_cons_self)
      have hfirst := WrittenArgument.named hne hchars (.quoted hvalue)
      have hothers := ih (fun e he => hkeys e (List.mem_cons_of_mem _ he))
        (fun e he => hvalues e (List.mem_cons_of_mem _ he))
      have hall := WrittenArguments.cons (List.cons_ne_nil _ _) hblank hfirst hothers
      simp only [String.ofList_toList] at hall
      simpa [Token.writeNamed] using hall
  have hwords := h.words
  rw [writeArguments, Arguments.list, writeWords]
  generalize args.positional = words at hwords
  induction words with
  | nil => exact hnamed
  | cons word words ih =>
    obtain ⟨hne, hchars⟩ := hwords _ List.mem_cons_self
    have hothers := ih fun w hw => hwords w (List.mem_cons_of_mem _ hw)
    have hall := WrittenArguments.cons (List.cons_ne_nil _ _) hblank (.word hne hchars) hothers
    rw [String.ofList_toList] at hall
    simpa using hall

/-- A composed token without backslashes in its values is read back. -/
theorem readsBack_compose {name : String} {args : Arguments} {body : Option String}
    (h : Composable name args body) (hvalues : ∀ entry ∈ args.named.entries, '\\' ∉ entry.2.toList) :
    (Token.compose name args body).ReadsBack := by
  have hheader : WrittenHeader (name.toList ++ writeArguments args) name args := by
    refine .intro h.name (writtenArguments h hvalues) ?_
    have hcollects := collects_foldl args.list
    rwa [args.foldl_add_list] at hcollects
  have hbody : ∀ text ∈ body.map String.toList, BraceFree text := by
    simpa using fun text htext => h.body text htext
  have hpieces := pieces_braced hheader hbody
  rw [← toList_raw_compose, String.ofList_toList] at hpieces
  refine ⟨_, _, hpieces, rfl, rfl, ?_⟩
  cases body with
  | none => rfl
  | some text => exact congrArg some String.ofList_toList

/-! ## §3 Reading out of step -/

/-- A text that starts within a written value and goes on to the colon at the end of the arguments. -/
inductive InValue : List Char → Prop
  /-- The rest of the value, the closing quote, and the values behind it. -/
  | intro (value : List Char) {entries : List (String × String)}
      (keys : ∀ entry ∈ entries, ∀ c ∈ entry.1.toList, isKeyChar c = true) :
      InValue (Token.escapeQuotes value ++ '"' :: (entries.flatMap Token.writeNamed ++ [':']))

namespace InValue

variable {cs : List Char}

theorem quote_mem (h : InValue cs) : '"' ∈ cs := by
  cases h with
  | intro value _ => simp

/-- At the end of the value the closing quote follows, and then other values. -/
theorem entries_of_quote {rest : List Char} (h : InValue ('"' :: rest)) :
    ∃ entries : List (String × String), (∀ entry ∈ entries, ∀ c ∈ entry.1.toList, isKeyChar c = true) ∧
      rest = entries.flatMap Token.writeNamed ++ [':'] := by
  generalize hcs : '"' :: rest = cs at h
  cases h with
  | @intro value entries keys =>
    cases value with
    | nil => exact ⟨entries, keys, (List.cons.inj hcs).2⟩
    | cons c value =>
      exfalso
      by_cases hc : c = '"'
      · subst hc
        simp at hcs
      · rw [escapeQuotes_of_ne hc] at hcs
        exact hc (List.cons.inj hcs).1.symm

/-- One character further on it is still within the value, unless that ends there or a quote in it
begins. -/
theorem tail {c : Char} {rest : List Char} (h : InValue (c :: rest)) (hquote : c ≠ '"')
    (hslash : c ≠ '\\') : InValue rest := by
  generalize hcs : c :: rest = cs at h
  cases h with
  | @intro value entries keys =>
    cases value with
    | nil => exact absurd (List.cons.inj hcs).1 hquote
    | cons d value =>
      by_cases hd : d = '"'
      · subst hd
        exact absurd (List.cons.inj hcs).1 hslash
      · rw [escapeQuotes_of_ne hd] at hcs
        rw [(List.cons.inj hcs).2]
        exact .intro value keys

/-- Passing over characters of a class leads on in the value, to its end at most, or up to a quote in
it. -/
theorem dropWhile (h : InValue cs) {p : Char → Bool} (hquote : p '"' = false) :
    InValue (cs.dropWhile p) ∨ p '\\' = true ∧ ∃ rest, cs.dropWhile p = '"' :: rest := by
  obtain ⟨value, keys⟩ := h
  induction value with
  | nil =>
    rw [escapeQuotes_nil, List.nil_append, List.dropWhile_cons_of_neg (by simp [hquote])]
    exact .inl (.intro [] keys)
  | cons c value ih =>
    by_cases hc : c = '"'
    · subst hc
      -- A quote is written as two characters, and the class may end between them.
      cases hslash : p '\\' with
      | true =>
        rw [escapeQuotes_quote, List.cons_append, List.cons_append,
          List.dropWhile_cons_of_pos hslash, List.dropWhile_cons_of_neg (by simp [hquote])]
        exact .inr ⟨rfl, _, rfl⟩
      | false =>
        rw [escapeQuotes_quote, List.cons_append, List.dropWhile_cons_of_neg (by simp [hslash])]
        exact .inl (.intro ('"' :: value) keys)
    · rw [escapeQuotes_of_ne hc, List.cons_append]
      cases hp : p c with
      | true =>
        rw [List.dropWhile_cons_of_pos hp]
        exact ih
      | false =>
        rw [List.dropWhile_cons_of_neg (by simp [hp]), ← List.cons_append, ← escapeQuotes_of_ne hc]
        exact .inl (.intro (c :: value) keys)

/-- So does passing over blanks. -/
theorem trimLeft {c : Char} {rest : List Char} (h : InValue (c :: rest)) (hc : isBlank c = true) :
    InValue (Text.trimLeft rest) := by
  have hquote : c ≠ '"' := by
    rintro rfl
    exact absurd hc (by decide)
  have hslash : c ≠ '\\' := by
    rintro rfl
    exact absurd hc (by decide)
  have hrest := (h.tail hquote hslash).dropWhile (p := isBlank) (by decide)
  exact hrest.resolve_right fun hslash => absurd hslash.1 (by decide)

/-- A quoted text that starts at the closing quote of a value ends at the opening quote of the next. -/
theorem scanQuoted {text rest after : List Char} (h : InValue ('"' :: rest))
    (hscan : Template.scanQuoted rest = some (text, after)) : InValue after := by
  obtain ⟨entries, keys, rfl⟩ := h.entries_of_quote
  cases entries with
  | nil => simp [Template.scanQuoted] at hscan
  | cons entry entries =>
    obtain ⟨key, value⟩ := entry
    -- No character of a key ends the text or escapes another.
    have hkey : WrittenQuoted (' ' :: (key.toList ++ ['='])) (' ' :: (key.toList ++ ['='])) := by
      refine writtenQuoted_self fun c hc => ?_
      rcases List.mem_cons.1 hc with rfl | hc
      · decide
      rcases List.mem_append.1 hc with hc | hc
      · have hchar := keys _ List.mem_cons_self c hc
        constructor <;> rintro rfl <;> exact absurd hchar (by decide)
      · rw [List.mem_singleton.1 hc]
        decide
    have hread : Template.scanQuoted (((key, value) :: entries).flatMap Token.writeNamed ++ [':']) =
        some (' ' :: (key.toList ++ ['=']),
          Token.escapeQuotes value.toList ++ '"' :: (entries.flatMap Token.writeNamed ++ [':'])) :=
      scanQuoted_eq_some_iff.2 ⟨_, by simp [Token.writeNamed], hkey⟩
    rw [hread] at hscan
    rw [← (Prod.mk.inj (Option.some.inj hscan)).2]
    exact .intro value.toList fun e he => keys e (List.mem_cons_of_mem _ he)

/-- A value that is read there ends in the value it starts in or in the next, or in front of a quote. -/
theorem scanValue {text after : List Char} (h : InValue cs)
    (hscan : Template.scanValue cs = some (text, after)) :
    InValue after ∨ ∃ rest, after = '"' :: rest := by
  unfold Template.scanValue at hscan
  split at hscan
  · exact .inl (h.scanQuoted hscan)
  · rw [← (Prod.mk.inj (Option.some.inj hscan)).2]
    exact (h.dropWhile (by decide)).imp_right (·.2)

/-- So does an argument. -/
theorem scanArgument {a : Argument} {after : List Char} (h : InValue cs)
    (hscan : Template.scanArgument cs = some (a, after)) :
    InValue after ∨ ∃ rest, after = '"' :: rest := by
  unfold Template.scanArgument at hscan
  split at hscan
  · obtain ⟨⟨text, rest⟩, hquoted, heq⟩ := Option.map_eq_some_iff.1 hscan
    rw [← (Prod.mk.inj heq).2]
    exact .inl (h.scanQuoted hquoted)
  · dsimp only at hscan
    split at hscan
    · rename_i rest _ hequals
      obtain ⟨⟨value, rest'⟩, hvalue, heq⟩ := Option.map_eq_some_iff.1 hscan
      rw [← (Prod.mk.inj heq).2]
      -- No key holds a backslash, so the equals sign behind this one is in the value too.
      have hkey := h.dropWhile (p := isKeyChar) (by decide)
      rw [hequals] at hkey
      have hin : InValue ('=' :: rest) := hkey.resolve_right fun hslash => absurd hslash.1 (by decide)
      exact (hin.tail (by decide) (by decide)).scanValue hvalue
    · split at hscan
      · exact absurd hscan (by simp)
      · rw [← (Prod.mk.inj (Option.some.inj hscan)).2]
        exact (h.dropWhile (by decide)).imp_right (·.2)

end InValue

/-- No arguments start with a quote right behind what is before them. -/
theorem scanArguments_quote (args : Arguments) (rest : List Char) :
    scanArguments args ('"' :: rest) = none := by
  have hblank : isBlank '"' = false := by decide
  rw [scanArguments]
  · simp [hblank]
  · simp
  · simp

/-- **A reading that is out of step never gets back**: it does not end at the colon behind the last
value. -/
theorem InValue.not_scanArguments {cs : List Char} (h : InValue cs) (args args' : Arguments) :
    scanArguments args cs ≠ some (args', .colon, []) := by
  intro hscan
  fun_induction scanArguments args cs with
  | case1 args rest => simp at hscan
  | case2 args rest =>
    obtain ⟨-, rfl⟩ : args = args' ∧ rest = [] := by simpa using hscan
    exact absurd h.quote_mem (by decide)
  | case3 => simp at hscan
  | case4 args c rest _ _ hc after hcolon =>
    -- The reading ends at a colon in the value, and not at the last one, since a quote is still to come.
    obtain ⟨-, rfl⟩ : args = args' ∧ after = [] := by simpa using hscan
    have hin := h.trimLeft hc
    rw [hcolon] at hin
    exact absurd hin.quote_mem (by decide)
  | case5 => simp at hscan
  | case6 args c rest _ _ hc a after _ _ ha ih =>
    -- An argument leads on in a value, or up to a quote, where nothing is read.
    rcases (h.trimLeft hc).scanArgument ha with hin | ⟨rest', rfl⟩
    · exact ih hin hscan
    · rw [scanArguments_quote] at hscan
      exact absurd hscan (by simp)
  | case7 => simp at hscan
  | case8 => simp at hscan

/-! ## §4 Reading values -/

theorem scanQuoted_char {c : Char} (hquote : c ≠ '"') (hslash : c ≠ '\\') (cs : List Char) :
    scanQuoted (c :: cs) = (scanQuoted cs).map fun (text, after) => (c :: text, after) := by
  rw [scanQuoted]
  · exact if_neg hslash
  · exact hquote
  · exact fun _ _ hc => absurd hc hslash

theorem scanQuoted_escape (c : Char) (cs : List Char) :
    scanQuoted ('\\' :: c :: cs) = (scanQuoted cs).map fun (text, after) => (c :: text, after) := by
  rw [scanQuoted]

/-- A character in front of a value is read as it is written, unless it is a backslash. -/
theorem scanQuoted_escapeQuotes_cons {c : Char} (hc : c ≠ '\\') (value cs : List Char) :
    scanQuoted (Token.escapeQuotes (c :: value) ++ cs) =
      (scanQuoted (Token.escapeQuotes value ++ cs)).map fun (text, after) => (c :: text, after) := by
  by_cases hquote : c = '"'
  · subst hquote
    exact scanQuoted_escape '"' _
  · rw [escapeQuotes_of_ne hquote]
    exact scanQuoted_char hquote hc _

/-- How a value whose quotes are escaped may be read, in front of a closing quote and a text. -/
inductive ReadsEscaped (value rest : List Char) : List Char → List Char → Prop
  /-- As it is, if it holds no backslashes. -/
  | whole (h : '\\' ∉ value) : ReadsEscaped value rest value rest
  /-- Up to its closing quote, but shorter. -/
  | shorter {text : List Char} (h : text.length < value.length) : ReadsEscaped value rest text rest
  /-- Up to a quote in it. -/
  | within (inner : List Char) {text : List Char} :
      ReadsEscaped value rest text (Token.escapeQuotes inner ++ '"' :: rest)
  /-- Over its closing quote. -/
  | beyond {text after tail : List Char} (h : scanQuoted rest = some (tail, after)) :
      ReadsEscaped value rest text after

namespace ReadsEscaped

variable {value rest text after : List Char}

/-- A character in front that is no backslash is read with the value. -/
theorem cons {c : Char} (hc : c ≠ '\\') (h : ReadsEscaped value rest text after) :
    ReadsEscaped (c :: value) rest (c :: text) after := by
  cases h with
  | whole hvalue => exact .whole (by simp [hvalue, Ne.symm hc])
  | shorter hlength => exact .shorter (by simpa using hlength)
  | within inner => exact .within inner
  | beyond htail => exact .beyond htail

/-- A backslash in front takes the next character, so less is read. -/
theorem slash {c : Char} (h : ReadsEscaped value rest text after) :
    ReadsEscaped ('\\' :: c :: value) rest (c :: text) after := by
  cases h with
  | whole _ => exact .shorter (by simp)
  | shorter hlength => exact .shorter (by simp only [List.length_cons]; omega)
  | within inner => exact .within inner
  | beyond htail => exact .beyond htail

end ReadsEscaped

/-- A value whose quotes are escaped is read in one of these ways. -/
theorem readsEscaped {value rest text after : List Char}
    (h : scanQuoted (Token.escapeQuotes value ++ '"' :: rest) = some (text, after)) :
    ReadsEscaped value rest text after := by
  -- Two characters at once, since a backslash takes the one behind it.
  induction value using List.twoStepInduction generalizing text with
  | nil =>
    obtain ⟨rfl, rfl⟩ : text = [] ∧ after = rest := by simpa [scanQuoted, eq_comm] using h
    exact .whole List.not_mem_nil
  | singleton c =>
    by_cases hslash : c = '\\'
    · subst hslash
      obtain ⟨⟨tail, after'⟩, htail, heq⟩ := Option.map_eq_some_iff.1 ((scanQuoted_escape '"' rest) ▸ h)
      rw [← (Prod.mk.inj heq).2]
      exact .beyond htail
    · rw [scanQuoted_escapeQuotes_cons hslash] at h
      obtain ⟨rfl, rfl⟩ : text = [c] ∧ after = rest := by simpa [scanQuoted, eq_comm] using h
      exact .cons hslash (.whole List.not_mem_nil)
  | cons_cons c d value ih ih' =>
    by_cases hslash : c = '\\'
    · subst hslash
      by_cases hquote : d = '"'
      · -- The backslash takes the one that escapes the quote, which so ends the text.
        subst hquote
        have hread : scanQuoted (Token.escapeQuotes ('\\' :: '"' :: value) ++ '"' :: rest) =
            some (['\\'], Token.escapeQuotes value ++ '"' :: rest) := by
          rw [escapeQuotes_of_ne (by decide), escapeQuotes_quote, List.cons_append, List.cons_append,
            scanQuoted_escape, List.cons_append, scanQuoted]
          rfl
        obtain ⟨-, rfl⟩ := Prod.mk.inj (Option.some.inj (hread.symm.trans h))
        exact .within value
      · rw [escapeQuotes_of_ne (by decide), escapeQuotes_of_ne hquote, List.cons_append,
          List.cons_append, scanQuoted_escape] at h
        obtain ⟨⟨text', after'⟩, hrest, heq⟩ := Option.map_eq_some_iff.1 h
        obtain ⟨rfl, rfl⟩ := Prod.mk.inj heq
        exact (ih hrest).slash
    · rw [scanQuoted_escapeQuotes_cons hslash] at h
      obtain ⟨⟨text', after'⟩, hrest, heq⟩ := Option.map_eq_some_iff.1 h
      obtain ⟨rfl, rfl⟩ := Prod.mk.inj heq
      exact (ih' d hrest).cons hslash

/-! ## §5 Reading arguments -/

theorem scanArguments_space {args : Arguments} {d : Char} {tail : List Char} (hd : isStop d = false) :
    scanArguments args (' ' :: d :: tail) = (scanArgument (d :: tail)).bind fun (a, rest) =>
      scanArguments (args.add a) rest := by
  have hblank : isBlank d = false := by
    simp only [isStop, Bool.or_eq_false_iff] at hd
    exact hd.1.1
  exact scanArguments_blank (by decide) (List.dropWhile_cons_of_neg (by simp [hblank])) hd

theorem scanArguments_writeWords {words : List String}
    (hwords : ∀ word ∈ words, word.toList ≠ [] ∧ ∀ c ∈ word.toList, isBareChar c = true)
    (args : Arguments) {c : Char} (hc : isStop c = true) (rest : List Char) :
    scanArguments args (writeWords words ++ c :: rest) =
      scanArguments ⟨args.positional ++ words, args.named⟩ (c :: rest) := by
  induction words generalizing args with
  | nil => rw [List.append_nil]; rfl
  | cons word words ih =>
    obtain ⟨hne, hbare⟩ := hwords word List.mem_cons_self
    have hothers := fun w hw => hwords w (List.mem_cons_of_mem _ hw)
    obtain ⟨b, bs, hcons⟩ := List.exists_cons_of_ne_nil hne
    rw [hcons] at hbare
    -- Behind the word stands the space of the next one or what follows them all: it ends there.
    obtain ⟨d, tail, htail, hd⟩ : ∃ d tail,
        writeWords words ++ c :: rest = d :: tail ∧ isStop d = true := by
      cases words with
      | nil => exact ⟨c, rest, rfl, hc⟩
      | cons w ws => exact ⟨' ', _, rfl, by decide⟩
    have hwritten : writeWords (word :: words) ++ c :: rest = ' ' :: b :: (bs ++ d :: tail) := by
      rw [← htail]
      simp [writeWords, hcons]
    rw [hwritten, scanArguments_space (isStop_of_isBareChar (hbare b List.mem_cons_self)),
      ← List.cons_append, scanArgument_word tail hbare hd, Option.bind_some, ← htail, ← hcons,
      String.ofList_toList]
    dsimp only
    rw [ih hothers]
    simp [Arguments.add, Arguments.addWord]

theorem exists_scanQuoted {args : Arguments} {key value : String} {rest : List Char}
    {r : Arguments × HeaderEnd × List Char} (hne : key.toList ≠ [])
    (hkey : ∀ c ∈ key.toList, isKeyChar c = true)
    (h : scanArguments args (Token.writeNamed (key, value) ++ rest) = some r) :
    ∃ text after, scanQuoted (Token.escapeQuotes value.toList ++ '"' :: rest) = some (text, after) ∧
      scanArguments (args.setNamed key (.ofList text)) after = some r := by
  obtain ⟨k, key', hcons⟩ := List.exists_cons_of_ne_nil hne
  rw [hcons] at hkey
  have hk := isNameChar_of_isKeyChar (hkey k List.mem_cons_self)
  have hwritten : Token.writeNamed (key, value) ++ rest =
      ' ' :: k :: (key' ++ '=' :: '"' :: (Token.escapeQuotes value.toList ++ '"' :: rest)) := by
    simp [Token.writeNamed, hcons]
  -- The key ends at the equals sign, and what stands behind that starts with a quote.
  rw [hwritten, scanArguments_space (isStop_of_isNameChar hk), ← List.cons_append,
    scanArgument_key hkey, ← hcons, String.ofList_toList, scanValue] at h
  obtain ⟨⟨a, after⟩, hread, hothers⟩ := Option.bind_eq_some_iff.1 h
  obtain ⟨⟨text, after'⟩, hquoted, heq⟩ := Option.map_eq_some_iff.1 hread
  obtain ⟨rfl, rfl⟩ := Prod.mk.inj heq
  exact ⟨text, after', hquoted, hothers⟩

/-- If the colon behind the values is found, the value was read in step. -/
theorem ReadsEscaped.in_step {value text after : List Char} {entries : List (String × String)}
    {args args' : Arguments}
    (h : ReadsEscaped value (entries.flatMap Token.writeNamed ++ [':']) text after)
    (hkeys : ∀ entry ∈ entries, ∀ c ∈ entry.1.toList, isKeyChar c = true)
    (hread : scanArguments args after = some (args', .colon, [])) :
    after = entries.flatMap Token.writeNamed ++ [':'] ∧ (text = value → '\\' ∉ value) := by
  cases h with
  | whole hvalue => exact ⟨rfl, fun _ => hvalue⟩
  | shorter hlength =>
    refine ⟨rfl, fun htext => ?_⟩
    rw [htext] at hlength
    exact absurd hlength (lt_irrefl _)
  -- Out of step, what is left starts inside a value, and from there the colon is never found.
  | within inner => exact absurd hread ((InValue.intro inner hkeys).not_scanArguments args args')
  | beyond htail =>
    have hquote := InValue.intro [] hkeys
    exact absurd hread ((hquote.scanQuoted htail).not_scanArguments args args')

/-- Where values are read up to the colon behind them, other keys keep what they had, and no value that
is found under its key holds a backslash. -/
theorem values_of_scanArguments {entries : List (String × String)} {args args' : Arguments}
    (hkeys : ∀ entry ∈ entries, entry.1.toList ≠ [] ∧ ∀ c ∈ entry.1.toList, isKeyChar c = true)
    (hsorted : entries.Pairwise fun a b => a.1 < b.1)
    (h : scanArguments args (entries.flatMap Token.writeNamed ++ [':']) = some (args', .colon, [])) :
    (∀ key, (∀ entry ∈ entries, entry.1 ≠ key) → args'.get? key = args.get? key) ∧
      ∀ entry ∈ entries, args'.get? entry.1 = some entry.2 → '\\' ∉ entry.2.toList := by
  induction entries generalizing args with
  | nil =>
    have hargs : args = args' := by simpa [scanArguments] using h
    exact ⟨fun _ _ => by rw [hargs], fun _ hentry => absurd hentry List.not_mem_nil⟩
  | cons entry entries ih =>
    obtain ⟨key, value⟩ := entry
    obtain ⟨hne, hchars⟩ := hkeys _ List.mem_cons_self
    have hothers := fun e he => hkeys e (List.mem_cons_of_mem (key, value) he)
    obtain ⟨hfirst, hrest⟩ := List.pairwise_cons.1 hsorted
    rw [List.flatMap_cons, List.append_assoc] at h
    obtain ⟨text, after, hquoted, hread⟩ := exists_scanQuoted hne hchars h
    -- This value is read in step, so the others are where the induction hypothesis has them.
    obtain ⟨rfl, hslash⟩ := (readsEscaped hquoted).in_step (fun e he => (hothers e he).2) hread
    obtain ⟨hframe, hvalues⟩ := ih hothers hrest hread
    refine ⟨fun other hother => ?_, fun entry hentry hfound => ?_⟩
    · rw [hframe other fun e he => hother e (List.mem_cons_of_mem _ he)]
      exact (Dict.get?_insert ..).trans (if_neg (hother _ List.mem_cons_self).symm)
    · rcases List.mem_cons.1 hentry with rfl | hentry
      · have hne' : ∀ e ∈ entries, e.1 ≠ key := fun e he heq =>
          String.lt_irrefl key (heq ▸ hfirst e he)
        have hset : args'.get? key = some (.ofList text) := by
          rw [hframe key hne']
          exact (Dict.get?_insert ..).trans (if_pos rfl)
        have htext : String.ofList text = value := Option.some.inj (hset.symm.trans hfound)
        exact hslash (by rw [← htext, String.toList_ofList])
      · exact hvalues entry hentry hfound

/-! ## §6 Reading composed tokens -/

/-- What is in front of the body is found again in the text of a composed token. -/
theorem header_of_written {name : String} {args : Arguments} {body : Option String} {u : Token}
    {nested : List Token} (h : WrittenToken 0 (Token.compose name args body).raw.toList u nested)
    (hbody : u.body = body) : WrittenHeader (name.toList ++ writeArguments args) u.name u.args := by
  rw [toList_raw_compose] at h
  generalize hcs : braced (name.toList ++ writeArguments args) (body.map String.toList) = cs at h
  cases h with
  | @closed front _ _ hheader =>
    subst hbody
    have hfront : (name.toList ++ writeArguments args) ++ ['}', '}'] = front ++ ['}', '}'] := by
      simpa only [braced, tokenAt, Option.map_none, List.cons.injEq, true_and] using hcs
    rwa [List.append_cancel_right hfront]
  | @body front text _ _ _ hheader _ =>
    subst hbody
    have hfront : (name.toList ++ writeArguments args) ++ ':' :: (text ++ ['}', '}']) =
        front ++ ':' :: (text ++ ['}', '}']) := by
      simpa only [braced, tokenAt, Option.map_some, String.toList_ofList, List.cons.injEq,
        true_and] using hcs
    rwa [List.append_cancel_right hfront]

/-- A written header that is the text of some arguments is read into what those add up to. -/
theorem scanArguments_of_header {name : String} {args args' : Arguments}
    (h : WrittenHeader (name.toList ++ writeArguments args) name args') :
    scanArguments .none (writeArguments args ++ [':']) = some (args', .colon, []) := by
  generalize hfront : name.toList ++ writeArguments args = front at h
  obtain ⟨-, hwritten, hcollects⟩ := h
  obtain rfl := List.append_cancel_left hfront
  have hscan := hwritten.scan .none .colon []
  rw [(collects_foldl _).eq hcollects, HeaderEnd.chars, List.append_nil] at hscan
  exact hscan

/-- A composed token that is read back holds no backslashes in its values. -/
theorem slash_notMem_of_readsBack {name : String} {args : Arguments} {body : Option String}
    (h : Composable name args body) (hread : (Token.compose name args body).ReadsBack) :
    ∀ entry ∈ args.named.entries, '\\' ∉ entry.2.toList := by
  obtain ⟨u, nested, hpieces, hname, hargs, hbody⟩ := hread
  have hheader := header_of_written (written_of_pieces hpieces) hbody
  rw [hname, hargs] at hheader
  have hscan := scanArguments_of_header hheader
  -- The words are read in step, whatever the values are.
  obtain ⟨c, tail, hentries, hstop⟩ : ∃ c tail,
      args.named.entries.flatMap Token.writeNamed ++ [':'] = c :: tail ∧ isStop c = true := by
    cases args.named.entries with
    | nil => exact ⟨':', [], rfl, by decide⟩
    | cons entry entries => exact ⟨' ', _, rfl, by decide⟩
  rw [writeArguments, List.append_assoc, hentries, scanArguments_writeWords h.words _ hstop,
    ← hentries] at hscan
  intro entry hentry
  exact (values_of_scanArguments h.keys args.named.sorted hscan).2 entry hentry (Dict.get?_of_mem hentry)

/-- **A composed token is read back exactly if none of its values holds a backslash.** -/
theorem readsBack_compose_iff {name : String} {args : Arguments} {body : Option String}
    (h : Composable name args body) :
    (Token.compose name args body).ReadsBack ↔
      ∀ entry ∈ args.named.entries, '\\' ∉ entry.2.toList :=
  ⟨slash_notMem_of_readsBack h, readsBack_compose h⟩

/-- Braces, quotes and colons in the values do no harm, not even next to the closing quotes. -/
theorem readsBack_compose_marks :
    let args : Arguments :=
      ⟨["zsh"], .ofList [("from", "\"\x7b\x7bx:"), ("to", " \x7d\x7d:y=\"")]⟩
    Composable "shell" args (some ": z") ∧
      (Token.compose "shell" args (some ": z")).ReadsBack := by
  intro args
  have h : Composable "shell" args (some ": z") := by decide +kernel
  exact ⟨h, (readsBack_compose_iff h).2 (by decide +kernel)⟩

/-- A value that ends in a backslash takes the closing quote in, and there is no token at all. -/
theorem not_readsBack_slash :
    let args : Arguments := ⟨[], .ofList [("path", "C:\\")]⟩
    Composable "file" args none ∧ ¬(Token.compose "file" args none).ReadsBack := by
  intro args
  refine ⟨by decide +kernel, ?_⟩
  rintro ⟨u, nested, hpieces, -⟩
  have htokens : tokens (Token.compose "file" args none).raw = [] := by decide +kernel
  simp [tokens, Piece.tokens, hpieces] at htokens

end Stencil.Template
