import Stencil.Proofs.Template.Layout

/-!
# The Grammar of Tokens

What a token is, said without a scanner: a relation for each part of it, between the text as it is
written and what is meant by it.  The relations look at no character outside the part, except that
a body ends at the first pair of closing braces outside the tokens in it.

The scanners accept exactly this grammar.  Since a scanner has one result, what a text means is
determined by the text.

Main statements: `scanInner_eq_some_iff` and `scanToken_eq_some_iff`.
-/

namespace Stencil.Template

open Stencil.Text

/-! ## §1 Arguments as they are written -/

/-- A text between quotes: a backslash takes the next character as it is, and any other character
but a quote stands for itself. -/
inductive WrittenQuoted : List Char → List Char → Prop
  /-- Nothing. -/
  | nil : WrittenQuoted [] []
  /-- A character that stands for itself. -/
  | char {c : Char} {w text : List Char} (quote : c ≠ '"') (slash : c ≠ '\\')
      (rest : WrittenQuoted w text) : WrittenQuoted (c :: w) (c :: text)
  /-- A backslash and the character it takes. -/
  | escape (c : Char) {w text : List Char} (rest : WrittenQuoted w text) :
      WrittenQuoted ('\\' :: c :: w) (c :: text)

/-- A value under a key: a quoted text, or bare characters, of which there may be none. -/
inductive WrittenValue : List Char → List Char → Prop
  /-- A quoted text. -/
  | quoted {w text : List Char} (h : WrittenQuoted w text) : WrittenValue ('"' :: (w ++ ['"'])) text
  /-- Bare characters. -/
  | bare {w : List Char} (chars : ∀ c ∈ w, isBareChar c = true) : WrittenValue w w

/-- An argument: a quoted text, a value under a key, or a word of bare characters. -/
inductive WrittenArgument : List Char → Argument → Prop
  /-- A quoted text without a key. -/
  | quoted {w text : List Char} (h : WrittenQuoted w text) :
      WrittenArgument ('"' :: (w ++ ['"'])) (.word (.ofList text))
  /-- A value under a key. -/
  | named {key w value : List Char} (nonempty : key ≠ []) (chars : ∀ c ∈ key, isKeyChar c = true)
      (h : WrittenValue w value) :
      WrittenArgument (key ++ '=' :: w) (.named (.ofList key) (.ofList value))
  /-- A word. -/
  | word {w : List Char} (nonempty : w ≠ []) (chars : ∀ c ∈ w, isBareChar c = true) :
      WrittenArgument w (.word (.ofList w))

/-- Arguments, each after at least one blank, and blanks behind the last. -/
inductive WrittenArguments : List Char → List Argument → Prop
  /-- No argument. -/
  | nil {blanks : List Char} (chars : ∀ c ∈ blanks, isBlank c = true) : WrittenArguments blanks []
  /-- An argument after blanks, and others. -/
  | cons {blanks w rest : List Char} {a : Argument} {as : List Argument} (nonempty : blanks ≠ [])
      (chars : ∀ c ∈ blanks, isBlank c = true) (first : WrittenArgument w a)
      (others : WrittenArguments rest as) : WrittenArguments (blanks ++ (w ++ rest)) (a :: as)

/-- The word that an argument is, if it has no key. -/
def Argument.word? : Argument → Option String
  | word text => some text
  | named _ _ => none

/-- The key and value that an argument is, if it has a key. -/
def Argument.entry? : Argument → Option (String × String)
  | word _ => none
  | named key value => some (key, value)

/-- Whether arguments are those of a list: the words in order, and under each key the last value. -/
structure Arguments.Collects (args : Arguments) (as : List Argument) : Prop where
  /-- The words. -/
  positional : args.positional = as.filterMap Argument.word?
  /-- The values under keys. -/
  named : ∀ key, args.get? key = (as.reverse.filterMap Argument.entry?).lookup key

/-! ## §2 Tokens as they are written -/

/-- What stands in a token before its end or body: a name and arguments. -/
inductive WrittenHeader : List Char → String → Arguments → Prop
  /-- A name, and what is written after it. -/
  | intro {name : String} {w : List Char} {as : List Argument} {args : Arguments}
      (valid : isValidName name = true) (arguments : WrittenArguments w as)
      (collects : args.Collects as) : WrittenHeader (name.toList ++ w) name args

/-- A token as it is written: what stands before the body, and the body. -/
def braced (front : List Char) : Option (List Char) → List Char
  | none => '{' :: '{' :: (front ++ ['}', '}'])
  | some body => '{' :: '{' :: (front ++ ':' :: (body ++ ['}', '}']))

/-- The byte position of the body of a token at a byte position. -/
def bodyStart (pos : Nat) (front : List Char) : Nat := pos + byteLength ('{' :: '{' :: (front ++ [':']))

/-- The token with some parts at a byte position. -/
def tokenAt (pos : Nat) (front : List Char) (name : String) (args : Arguments)
    (body : Option (List Char)) : Token :=
  { name := name, args := args, body := body.map .ofList, raw := .ofList (braced front body)
    span := ⟨pos, pos + byteLength (braced front body)⟩ }

/-- A token at a byte position and the tokens in its body, given what bodies are. -/
inductive WrittenWith (Body : Nat → List Char → List Token → Prop) (pos : Nat) :
    List Char → Token → List Token → Prop
  /-- A token without a body. -/
  | closed {front : List Char} {name : String} {args : Arguments}
      (header : WrittenHeader front name args) :
      WrittenWith Body pos (braced front none) (tokenAt pos front name args none) []
  /-- A token with a body. -/
  | body {front text : List Char} {name : String} {args : Arguments} {nested : List Token}
      (header : WrittenHeader front name args) (inner : Body (bodyStart pos front) text nested) :
      WrittenWith Body pos (braced front (some text)) (tokenAt pos front name args (some text)) nested

/-- Whether nowhere in a text two opening or two closing braces stand side by side. -/
def NoPair (cs : List Char) : Prop := ¬['{', '{'] <:+: cs ∧ ¬['}', '}'] <:+: cs

/-- A body without tokens: no pair of opening braces, and the first pair of closing ones ends it. -/
def WrittenPlain (_ : Nat) (text : List Char) (nested : List Token) : Prop :=
  NoPair (text ++ ['}']) ∧ nested = []

/-- A token that holds no others. -/
def WrittenInner (pos : Nat) (w : List Char) (t : Token) : Prop := WrittenWith WrittenPlain pos w t []

/-- A body: tokens that hold no others, and text before, between and behind them.  The first pair of
opening braces of a text starts the next token, and the first pair of closing ones ends the body. -/
inductive WrittenBody : Nat → List Char → List Token → Prop
  /-- Text behind the last token. -/
  | last {pos : Nat} {text : List Char} (h : NoPair (text ++ ['}'])) : WrittenBody pos text []
  /-- A token after text. -/
  | token {pos : Nat} {text w rest : List Char} {t : Token} {nested : List Token}
      (h : NoPair (text ++ ['{'])) (first : WrittenInner (pos + byteLength text) w t)
      (others : WrittenBody (pos + byteLength text + byteLength w) rest nested) :
      WrittenBody pos (text ++ (w ++ rest)) (t :: nested)

/-- A token and the tokens in its body. -/
def WrittenToken (pos : Nat) (w : List Char) (t : Token) (nested : List Token) : Prop :=
  WrittenWith WrittenBody pos w t nested

/-! ## §3 Reading arguments -/

/-- Quoted texts are read exactly as they are written. -/
theorem scanQuoted_eq_some_iff {cs text rest : List Char} :
    scanQuoted cs = some (text, rest) ↔ ∃ w, cs = w ++ '"' :: rest ∧ WrittenQuoted w text := by
  constructor
  · intro h
    fun_induction scanQuoted cs generalizing text rest with
    | case1 => exact absurd h (by simp)
    | case2 r =>
      obtain ⟨rfl, rfl⟩ := Prod.mk.inj (Option.some.inj h)
      exact ⟨[], rfl, .nil⟩
    -- A backslash takes the character behind it; any other stands for itself.
    | case3 c r ih =>
      obtain ⟨⟨t, a⟩, ht, he⟩ := Option.map_eq_some_iff.1 h
      obtain ⟨rfl, rfl⟩ := Prod.mk.inj he
      obtain ⟨w, rfl, hw⟩ := ih ht
      exact ⟨'\\' :: c :: w, rfl, .escape c hw⟩
    | case4 => exact absurd h (by simp)
    | case5 c r hquote _ hslash ih =>
      obtain ⟨⟨t, a⟩, ht, he⟩ := Option.map_eq_some_iff.1 h
      obtain ⟨rfl, rfl⟩ := Prod.mk.inj he
      obtain ⟨w, rfl, hw⟩ := ih ht
      exact ⟨c :: w, rfl, .char hquote hslash hw⟩
  · rintro ⟨w, rfl, hw⟩
    induction hw with
    | nil => simp [scanQuoted]
    | @char c w text hquote hslash _ ih =>
      rw [List.cons_append, scanQuoted]
      · simp [hslash, ih]
      · exact hquote
      · intro d tail hd
        exact absurd hd hslash
    | escape c _ ih => simp [scanQuoted, ih]

/-- Values are read as they are written. -/
theorem exists_writtenValue {cs value rest : List Char} (h : scanValue cs = some (value, rest)) :
    ∃ w, cs = w ++ rest ∧ WrittenValue w value := by
  unfold scanValue at h
  split at h
  · obtain ⟨w, rfl, hw⟩ := scanQuoted_eq_some_iff.1 h
    exact ⟨'"' :: (w ++ ['"']), by simp, .quoted hw⟩
  · obtain ⟨rfl, rfl⟩ := Prod.mk.inj (Option.some.inj h)
    exact ⟨_, List.takeWhile_append_dropWhile.symm, .bare fun c hc => List.mem_takeWhile_imp hc⟩

theorem WrittenValue.scan {w value : List Char} (h : WrittenValue w value) {d : Char}
    (hd : isStop d = true) (rest : List Char) :
    scanValue (w ++ d :: rest) = some (value, d :: rest) := by
  cases h with
  | quoted h =>
    rw [List.cons_append, List.append_assoc]
    exact scanQuoted_eq_some_iff.2 ⟨_, rfl, h⟩
  | bare hchars =>
    have hbare := isBareChar_of_isStop hd
    -- Neither a bare character nor a stop is a quote.
    have hquote : ∀ tail, w ++ d :: rest ≠ '"' :: tail := by
      intro tail heq
      cases w with
      | nil => exact (ne_of_isStop hd).1 (List.cons.inj heq).1
      | cons c w =>
        have hc := hchars c List.mem_cons_self
        rw [(List.cons.inj heq).1] at hc
        exact absurd hc (by decide)
    unfold scanValue
    split
    · rename_i tail heq
      exact absurd heq (hquote tail)
    · rw [takeWhile_append_cons rest hchars hbare, dropWhile_append_cons rest hchars hbare]

/-- Arguments are read as they are written. -/
theorem exists_writtenArgument {cs rest : List Char} {a : Argument}
    (h : scanArgument cs = some (a, rest)) : ∃ w, cs = w ++ rest ∧ WrittenArgument w a := by
  unfold scanArgument at h
  split at h
  · obtain ⟨⟨text, after⟩, ht, he⟩ := Option.map_eq_some_iff.1 h
    obtain ⟨rfl, rfl⟩ := Prod.mk.inj he
    obtain ⟨w, rfl, hw⟩ := scanQuoted_eq_some_iff.1 ht
    exact ⟨'"' :: (w ++ ['"']), by simp, .quoted hw⟩
  · dsimp only at h
    split at h
    · -- An equals sign ends the run of key characters.
      rename_i k key r hkey hequals
      obtain ⟨⟨value, after⟩, hv, he⟩ := Option.map_eq_some_iff.1 h
      obtain ⟨rfl, rfl⟩ := Prod.mk.inj he
      obtain ⟨w, rfl, hw⟩ := exists_writtenValue hv
      refine ⟨cs.takeWhile isKeyChar ++ '=' :: w, ?_, .named (by simp [hkey]) ?_ hw⟩
      · rw [List.append_assoc, List.cons_append, ← hequals, List.takeWhile_append_dropWhile]
      · exact fun c hc => List.mem_takeWhile_imp hc
    · split at h
      · exact absurd h (by simp)
      · -- There is no key: the argument is the run of bare characters.
        rename_i c word hword
        obtain ⟨rfl, rfl⟩ := Prod.mk.inj (Option.some.inj h)
        refine ⟨c :: word, ?_, .word (List.cons_ne_nil _ _) ?_⟩
        · rw [← hword, List.takeWhile_append_dropWhile]
        · rw [← hword]
          exact fun d hd => List.mem_takeWhile_imp hd

theorem WrittenArgument.scan {w : List Char} {a : Argument} (h : WrittenArgument w a) {d : Char}
    (hd : isStop d = true) (rest : List Char) :
    scanArgument (w ++ d :: rest) = some (a, d :: rest) := by
  cases h with
  | @quoted w text h =>
    rw [List.cons_append, List.append_assoc]
    change (scanQuoted (w ++ '"' :: (d :: rest))).map _ = _
    rw [scanQuoted_eq_some_iff.2 ⟨w, rfl, h⟩]
    rfl
  | @named key w value hne hkey h =>
    obtain ⟨k, key, rfl⟩ := List.exists_cons_of_ne_nil hne
    rw [List.append_assoc]
    exact scanArgument_named hkey (h.scan hd rest)
  | word hne hchars =>
    obtain ⟨c, w, rfl⟩ := List.exists_cons_of_ne_nil hne
    exact scanArgument_word rest hchars hd

theorem WrittenArgument.exists_cons {w : List Char} {a : Argument} (h : WrittenArgument w a) :
    ∃ c tail, w = c :: tail ∧ isStop c = false := by
  cases h with
  | quoted h => exact ⟨'"', _, rfl, by decide⟩
  | @named key w value hne hkey h =>
    obtain ⟨k, key, rfl⟩ := List.exists_cons_of_ne_nil hne
    exact ⟨k, _, rfl,
      isStop_of_isNameChar (isNameChar_of_isKeyChar (hkey k List.mem_cons_self))⟩
  | word hne hchars =>
    obtain ⟨c, w, rfl⟩ := List.exists_cons_of_ne_nil hne
    exact ⟨c, w, rfl, isStop_of_isBareChar (hchars c List.mem_cons_self)⟩

theorem WrittenArguments.isBlank_head {w : List Char} {as : List Argument}
    (h : WrittenArguments w as) : ∀ c tail, w = c :: tail → isBlank c = true := by
  rintro c tail heq
  cases h with
  | nil hchars => exact hchars c (heq ▸ List.mem_cons_self)
  | @cons blanks _ _ _ _ hne hchars _ _ =>
    obtain ⟨b, blanks, rfl⟩ := List.exists_cons_of_ne_nil hne
    rw [← (List.cons.inj heq).1]
    exact hchars b List.mem_cons_self

/-- Lists of arguments are read as they are written, up to the end of the header. -/
theorem exists_writtenArguments {args args' : Arguments} {e : HeaderEnd} {cs rest : List Char}
    (h : scanArguments args cs = some (args', e, rest)) :
    ∃ w as, cs = w ++ e.chars ++ rest ∧ WrittenArguments w as ∧ args' = as.foldl .add args := by
  have hskipped (c : Char) (r : List Char) (hc : isBlank c = true) :
      ∃ blanks, r = blanks ++ trimLeft r ∧ ∀ a ∈ c :: blanks, isBlank a = true := by
    obtain ⟨blanks, hr, hblanks⟩ := exists_blanks r
    refine ⟨blanks, hr, fun a ha => ?_⟩
    rcases List.mem_cons.1 ha with rfl | ha
    · exact hc
    · exact hblanks a ha
  fun_induction scanArguments args cs with
  | case1 args r =>
    simp only [Option.some.injEq, Prod.mk.injEq] at h
    obtain ⟨rfl, rfl, rfl⟩ := h
    exact ⟨[], [], rfl, .nil (by simp), rfl⟩
  | case2 args r =>
    simp only [Option.some.injEq, Prod.mk.injEq] at h
    obtain ⟨rfl, rfl, rfl⟩ := h
    exact ⟨[], [], rfl, .nil (by simp), rfl⟩
  -- Blanks, and then the closing braces or the colon.
  | case3 args c r _ _ hc after heq =>
    simp only [Option.some.injEq, Prod.mk.injEq] at h
    obtain ⟨rfl, rfl, rfl⟩ := h
    obtain ⟨blanks, hr, hblanks⟩ := hskipped c r hc
    exact ⟨c :: blanks, [], by rw [hr, heq]; simp [HeaderEnd.chars], .nil hblanks, rfl⟩
  | case4 args c r _ _ hc after heq =>
    simp only [Option.some.injEq, Prod.mk.injEq] at h
    obtain ⟨rfl, rfl, rfl⟩ := h
    obtain ⟨blanks, hr, hblanks⟩ := hskipped c r hc
    exact ⟨c :: blanks, [], by rw [hr, heq]; simp [HeaderEnd.chars], .nil hblanks, rfl⟩
  | case5 => exact absurd h (by simp)
  -- Blanks, an argument, and others that are read with it added.
  | case6 args c r _ _ hc a after _ _ ha ih =>
    obtain ⟨w', as, rfl, hw', rfl⟩ := ih h
    obtain ⟨w, hw, ha⟩ := exists_writtenArgument ha
    obtain ⟨blanks, hr, hblanks⟩ := hskipped c r hc
    refine ⟨c :: blanks ++ (w ++ w'), a :: as, ?_, .cons (List.cons_ne_nil _ _) hblanks ha hw', rfl⟩
    rw [hr, hw]
    simp
  | case7 => exact absurd h (by simp)
  | case8 => exact absurd h (by simp)

/-- Written arguments are read in front of the end of a header. -/
theorem WrittenArguments.scan {w : List Char} {as : List Argument} (h : WrittenArguments w as)
    (args : Arguments) (e : HeaderEnd) (rest : List Char) :
    scanArguments args (w ++ e.chars ++ rest) = some (as.foldl .add args, e, rest) := by
  induction h generalizing args with
  | @nil blanks hchars =>
    cases blanks with
    | nil => exact scanArguments_ending args e rest
    | cons c blanks =>
      obtain ⟨f, tail, hf, -, hblank⟩ := e.chars_eq
      have htrim : trimLeft (blanks ++ (e.chars ++ rest)) = e.chars ++ rest := by
        rw [hf]
        exact trimLeft_append_cons _ (fun a ha => hchars a (List.mem_cons_of_mem _ ha)) hblank
      rw [List.cons_append, List.cons_append, List.append_assoc]
      exact scanArguments_blank_ending (hchars c List.mem_cons_self) htrim
  | @cons blanks w w' a as hne hchars ha has ih =>
    obtain ⟨c, blanks, rfl⟩ := List.exists_cons_of_ne_nil hne
    obtain ⟨d, tail, rfl, hd⟩ := ha.exists_cons
    -- What follows the argument, blanks or the end of the header, starts with a stop.
    obtain ⟨f, after, hf, hstop⟩ := exists_stop has.isBlank_head e rest
    have hdblank : isBlank d = false := by
      simp only [isStop, Bool.or_eq_false_iff] at hd
      exact hd.1.1
    have hcs : c :: blanks ++ (d :: tail ++ w') ++ e.chars ++ rest =
        c :: (blanks ++ d :: (tail ++ f :: after)) := by
      rw [← hf]
      simp
    have htrim := trimLeft_append_cons (tail ++ f :: after)
      (fun a ha => hchars a (List.mem_cons_of_mem _ ha)) hdblank
    rw [hcs, scanArguments_blank_argument (hchars c List.mem_cons_self) htrim hd
      (ha.scan hstop after), ← hf, ih]
    rfl

/-! ## §4 Reading headers -/

/-- Adding arguments one after the other puts the words behind the others, and the last value under a
key replaces any other. -/
theorem foldl_add (as : List Argument) (args : Arguments) :
    (as.foldl Arguments.add args).positional = args.positional ++ as.filterMap Argument.word? ∧
      ∀ key, (as.foldl Arguments.add args).get? key =
        ((as.reverse.filterMap Argument.entry?).lookup key).or (args.get? key) := by
  induction as generalizing args with
  | nil => exact ⟨(List.append_nil _).symm, fun key => rfl⟩
  | cons a as ih =>
    obtain ⟨hpositional, hnamed⟩ := ih (args.add a)
    rw [List.foldl_cons, List.reverse_cons, List.filterMap_append]
    -- The other arguments come later, so their values under the same key count first.
    cases a with
    | word text =>
      refine ⟨hpositional.trans (List.append_assoc _ [text] _), fun key => ?_⟩
      rw [hnamed key, List.lookup_append, Option.or_assoc]
      rfl
    | named key' value =>
      refine ⟨hpositional, fun key => ?_⟩
      have hlookup : (args.add (.named key' value)).get? key =
          ([(key', value)].lookup key).or (args.get? key) := by
        rw [Dict.lookup_cons, List.lookup_nil]
        simp only [Arguments.add, Arguments.setNamed, Arguments.get?, Dict.get?_insert]
        split <;> rfl
      rw [hnamed key, hlookup, List.lookup_append, Option.or_assoc]
      rfl

theorem collects_foldl (as : List Argument) : (as.foldl Arguments.add .none).Collects as := by
  obtain ⟨hpositional, hnamed⟩ := foldl_add as .none
  refine ⟨hpositional, fun key => ?_⟩
  rw [hnamed key]
  exact Option.or_none

theorem Arguments.Collects.eq {args args' : Arguments} {as : List Argument} (h : args.Collects as)
    (h' : args'.Collects as) : args = args' := by
  obtain ⟨positional, named⟩ := args
  obtain ⟨positional', named'⟩ := args'
  obtain rfl : positional = positional' := h.positional.trans h'.positional.symm
  obtain rfl : named = named' := Dict.ext_get? fun key => (h.named key).trans (h'.named key).symm
  rfl

/-- Headers are read exactly as they are written. -/
theorem scanHeader_eq_some_iff {cs rest : List Char} {header : Header} :
    scanHeader cs = some (header, rest) ↔ ∃ front, cs = front ++ header.ending.chars ++ rest ∧
      WrittenHeader front header.name header.args := by
  constructor
  · intro h
    unfold scanHeader at h
    split at h
    · exact absurd h (by simp)
    · rename_i c name hname
      obtain ⟨⟨args, e, r⟩, hargs, he⟩ := Option.map_eq_some_iff.1 h
      obtain ⟨rfl, rfl⟩ := Prod.mk.inj he
      obtain ⟨w, as, hw, hwritten, rfl⟩ := exists_writtenArguments hargs
      -- The name is the run of name characters, which is not empty.
      have hvalid : isValidName (.ofList (c :: name)) = true := by
        rw [isValidName, String.toList_ofList, Bool.and_eq_true, List.all_eq_true]
        refine ⟨by simp, fun a ha => ?_⟩
        rw [← hname] at ha
        exact List.mem_takeWhile_imp ha
      refine ⟨(String.ofList (c :: name)).toList ++ w, ?_, .intro hvalid hwritten (collects_foldl as)⟩
      rw [String.toList_ofList, ← hname, List.append_assoc, List.append_assoc, ← List.append_assoc w,
        ← hw, List.takeWhile_append_dropWhile]
  · rintro ⟨front, rfl, hfront⟩
    obtain ⟨name, args, e⟩ := header
    obtain ⟨hvalid, hwritten, hcollects⟩ := hfront
    rename_i w as
    simp only [isValidName, Bool.and_eq_true, List.all_eq_true] at hvalid
    obtain ⟨hne, hall⟩ := hvalid
    obtain ⟨c, cs, hname⟩ : ∃ c cs, name.toList = c :: cs :=
      List.exists_cons_of_ne_nil (by simpa using hne)
    obtain rfl : String.ofList (c :: cs) = name := by rw [← hname, String.ofList_toList]
    rw [hname] at hall ⊢
    refine scanHeader_append hall hwritten.isBlank_head (fun e rest => ?_) e rest
    rw [hwritten.scan .none e rest, (collects_foldl as).eq hcollects]

theorem WrittenHeader.scan {front : List Char} {name : String} {args : Arguments}
    (h : WrittenHeader front name args) (e : HeaderEnd) (rest : List Char) :
    scanHeader (front ++ e.chars ++ rest) = some (⟨name, args, e⟩, rest) :=
  scanHeader_eq_some_iff.2 ⟨front, rfl, h⟩

/-! ## §5 Reading bodies -/

/-- Whether a text starts with two of a character side by side. -/
def StartsPair (b : Char) (cs : List Char) : Prop := ∃ tail, cs = b :: b :: tail

theorem not_startsPair_iff {b c : Char} {cs : List Char} :
    ¬StartsPair b (c :: cs) ↔ ∀ tail, c = b → cs = b :: tail → False := by
  simp only [StartsPair, List.cons.injEq, not_exists, not_and]

/-- Whether a text starts with a pair is seen in its first two characters. -/
theorem startsPair_append_iff {b c d : Char} {text rest : List Char} :
    StartsPair b (c :: (text ++ d :: rest)) ↔ StartsPair b (c :: (text ++ [d])) := by
  cases text with
  | nil => simp [StartsPair]
  | cons a text => simp [StartsPair]

theorem noPair_cons_iff {c : Char} {cs : List Char} :
    NoPair (c :: cs) ↔ ¬StartsPair '{' (c :: cs) ∧ ¬StartsPair '}' (c :: cs) ∧ NoPair cs := by
  have hstarts (b : Char) : [b, b] <+: c :: cs ↔ StartsPair b (c :: cs) := by
    simp only [List.IsPrefix, StartsPair, List.cons_append, List.nil_append, eq_comm]
  simp only [NoPair, List.infix_cons_iff, hstarts, not_or]
  rw [and_and_and_comm, and_assoc]

theorem noPair_singleton (c : Char) : NoPair [c] :=
  noPair_cons_iff.2 ⟨by simp [StartsPair], by simp [StartsPair], by simp [NoPair]⟩

/-- Bodies without tokens are read exactly as they are written. -/
theorem scanPlainBody_eq_some_iff {cs body rest : List Char} :
    scanPlainBody cs = some (body, rest) ↔
      cs = body ++ '}' :: '}' :: rest ∧ NoPair (body ++ ['}']) := by
  constructor
  · intro h
    fun_induction scanPlainBody cs generalizing body rest with
    | case1 => exact absurd h (by simp)
    | case2 r =>
      obtain ⟨rfl, rfl⟩ := Prod.mk.inj (Option.some.inj h)
      exact ⟨rfl, noPair_singleton '}'⟩
    | case3 c r hopen hclose ih =>
      obtain ⟨⟨b, a⟩, hb, he⟩ := Option.map_eq_some_iff.1 h
      obtain ⟨rfl, rfl⟩ := Prod.mk.inj he
      obtain ⟨rfl, hpair⟩ := ih hb
      -- The scanner looks two characters ahead, which is never past the first closing brace.
      rw [← not_startsPair_iff, startsPair_append_iff] at hopen hclose
      exact ⟨rfl, noPair_cons_iff.2 ⟨hopen, hclose, hpair⟩⟩
    | case4 => exact absurd h (by simp)
  · rintro ⟨rfl, hpair⟩
    induction body with
    | nil => simp [scanPlainBody]
    | cons c body ih =>
      rw [List.cons_append, noPair_cons_iff] at hpair
      obtain ⟨hopen, hclose, hpair⟩ := hpair
      rw [← startsPair_append_iff, not_startsPair_iff] at hopen hclose
      rw [List.cons_append, scanPlainBody, ih hpair]
      · rfl
      · exact hopen
      · exact hclose

/-- A text without pairs is passed over in a body, up to a brace that starts a token or the end. -/
theorem scanBody_append {text : List Char} {d : Char} (h : NoPair (text ++ [d])) (pos : Nat)
    (cs : List Char) :
    scanBody pos (text ++ d :: cs) = (scanBody (pos + byteLength text) (d :: cs)).map
      fun (body, nested, rest) => (text ++ body, nested, rest) := by
  induction text generalizing pos with
  | nil =>
    rw [List.nil_append, byteLength_nil, Nat.add_zero]
    exact Option.map_id'.symm
  | cons c text ih =>
    rw [List.cons_append, noPair_cons_iff] at h
    obtain ⟨hopen, hclose, hpair⟩ := h
    rw [← startsPair_append_iff, not_startsPair_iff] at hopen hclose
    rw [List.cons_append, scanBody, ih hpair, Option.map_map, byteLength_cons, ← Nat.add_assoc]
    · rfl
    · exact hopen
    · exact hclose

theorem WrittenWith.exists_cons {Body : Nat → List Char → List Token → Prop} {pos : Nat}
    {w : List Char} {t : Token} {nested : List Token} (h : WrittenWith Body pos w t nested) :
    ∃ tail, w = '{' :: '{' :: tail := by
  cases h with
  | closed _ => exact ⟨_, rfl⟩
  | body _ _ => exact ⟨_, rfl⟩

/-- A character that starts no pair may stand in front of a body. -/
theorem WrittenBody.cons {pos : Nat} {c : Char} {body rest : List Char} {nested : List Token}
    (hopen : ¬StartsPair '{' (c :: (body ++ '}' :: rest)))
    (hclose : ¬StartsPair '}' (c :: (body ++ '}' :: rest)))
    (h : WrittenBody (pos + c.utf8Size) body nested) : WrittenBody pos (c :: body) nested := by
  cases h with
  | last hpair =>
    rw [startsPair_append_iff] at hopen hclose
    exact .last (noPair_cons_iff.2 ⟨hopen, hclose, hpair⟩)
  | @token _ text w others t nested hpair first hothers =>
    -- Behind the text stands the brace that starts the token, so a pair is seen before that.
    obtain ⟨tail, rfl⟩ := first.exists_cons
    have hbody : text ++ ('{' :: '{' :: tail ++ others) ++ '}' :: rest =
        text ++ '{' :: ('{' :: tail ++ others ++ '}' :: rest) := by
      simp
    rw [hbody, startsPair_append_iff] at hopen hclose
    have hlength : pos + c.utf8Size + byteLength text = pos + byteLength (c :: text) := by
      rw [byteLength_cons, Nat.add_assoc]
    rw [hlength] at first hothers
    exact .token (noPair_cons_iff.2 ⟨hopen, hclose, hpair⟩) first hothers

/-! ## §6 Reading tokens -/

theorem consumed_append (cs rest : List Char) : consumed (cs ++ rest) rest = cs := by
  simp [consumed]

theorem scanBody_of_scanInner {pos : Nat} {cs rest body after : List Char} {t : Token}
    {nested : List Token} (ht : scanInner pos cs = some (t, rest))
    (hbody : scanBody t.span.stop rest = some (body, nested, after)) :
    scanBody pos cs = some (consumed cs rest ++ body, t :: nested, after) := by
  unfold scanInner at ht
  split at ht
  · rename_i inside
    rw [scanBody]
    split
    · rename_i hnone
      rw [scanInner, ht] at hnone
      exact absurd hnone (by simp)
    · rename_i t' rest' hsome
      rw [scanInner, ht] at hsome
      obtain ⟨rfl, rfl⟩ := Prod.mk.inj (Option.some.inj hsome)
      rw [hbody]
      rfl
  · exact absurd ht (by simp)

theorem token_braced (name : String) (args : Arguments) (e : HeaderEnd) (body : Option (List Char))
    (pos : Nat) (front rest : List Char) :
    Header.token ⟨name, args, e⟩ body pos (braced front body ++ rest) rest =
      tokenAt pos front name args body := by
  rw [Header.token, consumed_append]
  rfl

theorem braced_none_append (front rest : List Char) : braced front none ++ rest =
    '{' :: '{' :: (front ++ HeaderEnd.closed.chars ++ rest) := by
  simp [braced, HeaderEnd.chars]

theorem braced_some_append (front body rest : List Char) : braced front (some body) ++ rest =
    '{' :: '{' :: (front ++ HeaderEnd.colon.chars ++ (body ++ '}' :: '}' :: rest)) := by
  simp [braced, HeaderEnd.chars]

/-- Tokens that hold no others are read exactly as they are written. -/
theorem scanInner_eq_some_iff {pos : Nat} {cs rest : List Char} {t : Token} :
    scanInner pos cs = some (t, rest) ↔ ∃ w, cs = w ++ rest ∧ WrittenInner pos w t := by
  constructor
  · intro h
    unfold scanInner at h
    split at h
    · rename_i inside
      split at h
      · exact absurd h (by simp)
      · rename_i header r hheader
        obtain ⟨name, args, e⟩ := header
        obtain ⟨front, rfl, hfront⟩ := scanHeader_eq_some_iff.1 hheader
        -- The header ends at the closing braces, or at a colon with a body behind it.
        split at h
        · rename_i hending
          obtain rfl : e = .closed := hending
          obtain ⟨rfl, rfl⟩ := Prod.mk.inj (Option.some.inj h)
          rw [← braced_none_append, token_braced]
          exact ⟨_, rfl, .closed hfront⟩
        · rename_i hending
          obtain rfl : e = .colon := hending
          obtain ⟨⟨body, after⟩, hbody, he⟩ := Option.map_eq_some_iff.1 h
          obtain ⟨rfl, rfl⟩ := Prod.mk.inj he
          obtain ⟨rfl, hpair⟩ := scanPlainBody_eq_some_iff.1 hbody
          rw [← braced_some_append, token_braced]
          exact ⟨_, rfl, .body hfront ⟨hpair, rfl⟩⟩
    · exact absurd h (by simp)
  · rintro ⟨w, rfl, hw⟩
    cases hw with
    | closed hfront =>
      rw [braced_none_append, scanInner, hfront.scan, ← braced_none_append]
      dsimp only
      rw [token_braced]
    | body hfront hbody =>
      obtain ⟨hpair, -⟩ := hbody
      rw [braced_some_append, scanInner, hfront.scan, ← braced_some_append]
      dsimp only
      rw [scanPlainBody_eq_some_iff.2 ⟨rfl, hpair⟩, Option.map_some, token_braced]

theorem WrittenWith.span_eq {Body : Nat → List Char → List Token → Prop} {pos : Nat}
    {w : List Char} {t : Token} {nested : List Token} (h : WrittenWith Body pos w t nested) :
    t.span = ⟨pos, pos + byteLength w⟩ := by
  cases h <;> rfl

/-- Bodies are read exactly as they are written. -/
theorem scanBody_eq_some_iff {pos : Nat} {cs body rest : List Char} {nested : List Token} :
    scanBody pos cs = some (body, nested, rest) ↔
      cs = body ++ '}' :: '}' :: rest ∧ WrittenBody pos body nested := by
  constructor
  · intro h
    fun_induction scanBody pos cs generalizing body nested rest with
    | case1 => exact absurd h (by simp)
    | case2 pos r t after ht ih =>
      obtain ⟨⟨b, ns, a⟩, hb, he⟩ := Option.map_eq_some_iff.1 h
      simp only [Prod.mk.injEq] at he
      obtain ⟨rfl, rfl, rfl⟩ := he
      obtain ⟨rfl, hothers⟩ := ih hb
      obtain ⟨w, hw, hinner⟩ := scanInner_eq_some_iff.1 ht
      rw [hw, consumed_append, List.append_assoc]
      rw [hinner.span_eq] at hothers
      -- The token stands first: the text before it is empty.
      exact ⟨rfl, @WrittenBody.token pos [] _ _ _ _ (noPair_singleton '{') hinner hothers⟩
    | case3 pos r =>
      simp only [Option.some.injEq, Prod.mk.injEq] at h
      obtain ⟨rfl, rfl, rfl⟩ := h
      exact ⟨rfl, .last (noPair_singleton '}')⟩
    | case4 pos c r hopen hclose ih =>
      obtain ⟨⟨b, ns, a⟩, hb, he⟩ := Option.map_eq_some_iff.1 h
      simp only [Prod.mk.injEq] at he
      obtain ⟨rfl, rfl, rfl⟩ := he
      obtain ⟨rfl, hbody⟩ := ih hb
      rw [← not_startsPair_iff] at hopen hclose
      exact ⟨rfl, hbody.cons hopen hclose⟩
    | case5 => exact absurd h (by simp)
  · rintro ⟨rfl, hbody⟩
    induction hbody with
    | last hpair =>
      rw [scanBody_append hpair, scanBody]
      simp
    | @token pos text w others t nested hpair first _ ih =>
      -- The text is passed over, the token is read, and what is left of the body follows from there.
      have ht : scanInner (pos + byteLength text) (w ++ (others ++ '}' :: '}' :: rest)) = _ :=
        scanInner_eq_some_iff.2 ⟨w, rfl, first⟩
      obtain ⟨tail, rfl⟩ := first.exists_cons
      have hspan : t.span.stop = pos + byteLength text + byteLength ('{' :: '{' :: tail) := by
        rw [first.span_eq]
      rw [← hspan] at ih
      have hbody := scanBody_of_scanInner ht ih
      rw [consumed_append] at hbody
      have hcs : text ++ ('{' :: '{' :: tail ++ others) ++ '}' :: '}' :: rest =
          text ++ '{' :: ('{' :: tail ++ (others ++ '}' :: '}' :: rest)) := by
        simp
      rw [hcs, scanBody_append hpair]
      exact congrArg (Option.map _) hbody

/-- Tokens are read exactly as they are written. -/
theorem scanToken_eq_some_iff {pos : Nat} {cs rest : List Char} {t : Token} {nested : List Token} :
    scanToken pos cs = some (t, nested, rest) ↔ ∃ w, cs = w ++ rest ∧ WrittenToken pos w t nested := by
  have hstart (front rest : List Char) :
      pos + byteLength (consumed ('{' :: '{' :: (front ++ HeaderEnd.colon.chars ++ rest)) rest) =
        bodyStart pos front := by
    rw [bodyStart, ← consumed_append ('{' :: '{' :: (front ++ [':'])) rest]
    rfl
  constructor
  · intro h
    unfold scanToken at h
    split at h
    · rename_i inside
      split at h
      · exact absurd h (by simp)
      · rename_i header r hheader
        obtain ⟨name, args, e⟩ := header
        obtain ⟨front, rfl, hfront⟩ := scanHeader_eq_some_iff.1 hheader
        -- As for a token that holds no others, but what is behind a colon is read with its tokens.
        split at h
        · rename_i hending
          obtain rfl : e = .closed := hending
          simp only [Option.some.injEq, Prod.mk.injEq] at h
          obtain ⟨rfl, rfl, rfl⟩ := h
          rw [← braced_none_append, token_braced]
          exact ⟨_, rfl, .closed hfront⟩
        · rename_i hending
          obtain rfl : e = .colon := hending
          obtain ⟨⟨body, ns, after⟩, hbody, he⟩ := Option.map_eq_some_iff.1 h
          simp only [Prod.mk.injEq] at he
          obtain ⟨rfl, rfl, rfl⟩ := he
          rw [hstart] at hbody
          obtain ⟨rfl, hinner⟩ := scanBody_eq_some_iff.1 hbody
          rw [← braced_some_append, token_braced]
          exact ⟨_, rfl, .body hfront hinner⟩
    · exact absurd h (by simp)
  · rintro ⟨w, rfl, hw⟩
    cases hw with
    | closed hfront =>
      rw [braced_none_append, scanToken, hfront.scan, ← braced_none_append]
      dsimp only
      rw [token_braced]
    | body hfront hbody =>
      rw [braced_some_append, scanToken, hfront.scan]
      dsimp only
      rw [hstart, scanBody_eq_some_iff.2 ⟨rfl, hbody⟩, Option.map_some, ← braced_some_append,
        token_braced]

end Stencil.Template
