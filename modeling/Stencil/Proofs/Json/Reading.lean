import Stencil.Json.Parser
import Stencil.Json.Printer
import Stencil.Text.Blank

/-!
# Reading Back Printed JSON

What the printer writes for a string is read back, whatever its characters.  So are objects of
strings, compact or indented, and arrays of such objects; these are what the store keeps.  A text of
blanks is no value at all.

Main statements: `readString_quote`, `parse_indentedStrings`, `parse_records` and
`parseAsWritten?_of_isBlankText`.
-/

namespace Stencil.Json

/-! ## §1 Strings -/

theorem hexValue?_hexDigit {n : Nat} (h : n < 16) : hexValue? (hexDigit n) = some n := by
  have hall : ∀ n < 16, hexValue? (hexDigit n) = some n := by decide
  exact hall n h

theorem readEscape_control {c : Char} (h : c.toNat < 0x20) (rest : List Char) :
    readEscape ('u' :: '0' :: '0' :: hexDigit (c.toNat / 16) :: hexDigit (c.toNat % 16) :: rest) =
      some (c, rest) := by
  have hzero : hexValue? '0' = some 0 := by decide
  have hhigh := hexValue?_hexDigit (n := c.toNat / 16) (by omega)
  have hlow := hexValue?_hexDigit (n := c.toNat % 16) (by omega)
  have hread : readHex4 ('0' :: '0' :: hexDigit (c.toNat / 16) :: hexDigit (c.toNat % 16) :: rest) =
      some (c.toNat, rest) := by
    simp only [readHex4, hzero, hhigh, hlow, Option.bind_eq_bind, Option.bind_some]
    rw [show ((0 * 16 + 0) * 16 + c.toNat / 16) * 16 + c.toNat % 16 = c.toNat by omega]
  have hsmall : ¬(0xD800 ≤ c.toNat) := by omega
  have hsmall' : ¬(0xDC00 ≤ c.toNat) := by omega
  simp [readEscape, hread, hsmall, hsmall', Char.ofNat_toNat]

/-- The characters with escapes of their own. -/
def namedEscapes : List Char := ['"', '\\', '\n', '\r', '\t', '\x08', '\x0c']

/-- Any other character is written as it is, or by its number if it is a control character. -/
theorem escapeChar_of_not_mem {c : Char} (h : c ∉ namedEscapes) :
    escapeChar c = if c.toNat < 0x20 then
      ['\\', 'u', '0', '0', hexDigit (c.toNat / 16), hexDigit (c.toNat % 16)] else [c] := by
  simp only [namedEscapes, List.mem_cons, List.not_mem_nil, or_false, not_or] at h
  simp only [escapeChar, h, ↓reduceIte]

theorem readString_escapeChar (fuel : Nat) (acc : List Char) (c : Char) (rest : List Char) :
    readString (fuel + 1) acc (escapeChar c ++ rest) = readString fuel (c :: acc) rest := by
  by_cases hnamed : c ∈ namedEscapes
  · simp only [namedEscapes, List.mem_cons, List.not_mem_nil, or_false] at hnamed
    rcases hnamed with rfl | rfl | rfl | rfl | rfl | rfl | rfl <;>
      simp [escapeChar, readString, readEscape]
  · rw [escapeChar_of_not_mem hnamed]
    simp only [namedEscapes, List.mem_cons, not_or] at hnamed
    by_cases hcontrol : c.toNat < 0x20
    · rw [if_pos hcontrol, List.cons_append, readString]
      simp only [List.cons_append, List.nil_append, readEscape_control hcontrol]
    · rw [if_neg hcontrol, List.singleton_append, readString]
      · exact if_neg hcontrol
      · exact hnamed.1
      · exact hnamed.2.1

/-- Characters are read back as they are written in a string, up to the closing quote. -/
theorem readString_escaped {cs : List Char} {fuel : Nat} (h : cs.length ≤ fuel) (acc rest : List Char) :
    readString fuel acc (cs.flatMap escapeChar ++ '"' :: rest) =
      some (.ofList (acc.reverse ++ cs), rest) := by
  induction cs generalizing fuel acc with
  | nil => simp [readString]
  | cons c cs ih =>
    cases fuel with
    | zero => simp at h
    | succ fuel =>
      rw [List.flatMap_cons, List.append_assoc, readString_escapeChar, ih (Nat.le_of_succ_le_succ h)]
      simp

theorem length_le_escaped (cs : List Char) : cs.length ≤ (cs.flatMap escapeChar).length := by
  induction cs with
  | nil => exact Nat.le_refl _
  | cons c cs ih =>
    have hpos : 0 < (escapeChar c).length := by
      unfold escapeChar
      repeat' split
      all_goals simp
    rw [List.flatMap_cons, List.length_append, List.length_cons]
    omega

/-- What follows the opening quote of a string, up to and with the closing one. -/
def quoteTail (s : String) : List Char := s.toList.flatMap escapeChar ++ ['"']

theorem quote_eq (s : String) : quote s = '"' :: quoteTail s := rfl

theorem readString_quote (s : String) (rest : List Char) :
    readString (quoteTail s ++ rest).length [] (quoteTail s ++ rest) = some (s, rest) := by
  rw [quoteTail, List.append_assoc, List.singleton_append, readString_escaped]
  · simp
  · rw [List.length_append]
    exact Nat.le_add_right_of_le (length_le_escaped _)

/-! ## §2 Values -/

section Values

variable {reads : String → Bool}

/-- Whether a text is made of blanks between the parts of a value. -/
def Pad (cs : List Char) : Prop := ∀ c ∈ cs, isSpace c = true

theorem pad_nil : Pad [] := by simp [Pad]

theorem dropWhile_pad {pad : List Char} (h : Pad pad) (cs : List Char) :
    (pad ++ cs).dropWhile isSpace = cs.dropWhile isSpace :=
  List.dropWhile_append_of_pos h

theorem readValue_quote {pad : List Char} (h : Pad pad) (fuel depth : Nat) (s : String)
    (rest : List Char) :
    readValue reads (fuel + 1) depth (pad ++ (quote s ++ rest)) = some (.text s, rest) := by
  have hdrop : (pad ++ (quote s ++ rest)).dropWhile isSpace = '"' :: (quoteTail s ++ rest) := by
    rw [dropWhile_pad h, quote_eq, List.cons_append, List.dropWhile_cons_of_neg (by decide)]
  simp only [readValue, hdrop, readString_quote, Option.map_some]

/-- The written form of a field that is a string, with blanks before the key and the value. -/
def fieldText (before inner : List Char) (field : String × String) : List Char :=
  before ++ quote field.1 ++ ':' :: (inner ++ quote field.2)

theorem readFields_texts {before inner after : List Char} (hbefore : Pad before) (hinner : Pad inner)
    (hafter : Pad after) {fields : List (String × String)} (hne : fields ≠ [])
    (hreads : ∀ field ∈ fields, reads field.1 = true) {fuel : Nat} (hfuel : fields.length < fuel)
    (depth : Nat) (rest : List Char) :
    readFields reads fuel depth
        (commaSeparated (fields.map (fieldText before inner)) ++ (after ++ '}' :: rest)) =
      some (fields.map fun field => (field.1, .text field.2), rest) := by
  induction fields generalizing fuel with
  | nil => exact absurd rfl hne
  | cons field fields ih =>
    obtain ⟨key, value⟩ := field
    have hkey : reads key = true := hreads _ List.mem_cons_self
    obtain ⟨fuel, rfl⟩ : ∃ n, fuel = n + 2 := ⟨fuel - 2, by simp at hfuel; omega⟩
    -- The first field, in front of whatever follows it.
    have hfirst (tail : List Char) :
        (fieldText before inner (key, value) ++ tail).dropWhile isSpace =
          '"' :: (quoteTail key ++ ':' :: (inner ++ (quote value ++ tail))) := by
      rw [fieldText, List.append_assoc, List.append_assoc, dropWhile_pad hbefore, quote_eq,
        List.cons_append, List.dropWhile_cons_of_neg (by decide)]
      simp
    have hcolon (tail : List Char) : (':' :: tail).dropWhile isSpace = ':' :: tail :=
      List.dropWhile_cons_of_neg (by decide)
    cases fields with
    | nil =>
      have hend : (after ++ '}' :: rest).dropWhile isSpace = '}' :: rest := by
        rw [dropWhile_pad hafter, List.dropWhile_cons_of_neg (by decide)]
      simp only [List.map_cons, List.map_nil, commaSeparated, readFields, hfirst, readString_quote,
        hcolon, hkey, ↓reduceIte, readValue_quote hinner, hend]
    | cons next fields =>
      have hcomma (tail : List Char) : (',' :: tail).dropWhile isSpace = ',' :: tail :=
        List.dropWhile_cons_of_neg (by decide)
      have hrest := ih (by simp) (fun field h => hreads field (List.mem_cons_of_mem _ h))
        (show (next :: fields).length < fuel + 1 by simpa using hfuel)
      rw [List.map_cons] at hrest
      rw [List.map_cons, List.map_cons, commaSeparated, List.append_assoc, List.cons_append]
      · rw [readFields]
        simp only [hfirst, readString_quote, hcolon, hkey, ↓reduceIte, readValue_quote hinner, hcomma,
          hrest]
        rfl
      · simp

/-- The text of fields that are strings starts with a quote, but for blanks. -/
theorem exists_quote_of_fields {before inner : List Char} (hbefore : Pad before)
    {fields : List (String × String)} (hne : fields ≠ []) (tail : List Char) :
    ∃ cs, (commaSeparated (fields.map (fieldText before inner)) ++ tail).dropWhile isSpace =
      '"' :: cs := by
  have hfield (field : String × String) (tail : List Char) :
      ∃ cs, (fieldText before inner field ++ tail).dropWhile isSpace = '"' :: cs := by
    rw [fieldText, List.append_assoc, List.append_assoc, dropWhile_pad hbefore, quote_eq,
      List.cons_append, List.dropWhile_cons_of_neg (by decide)]
    exact ⟨_, rfl⟩
  cases fields with
  | nil => exact absurd rfl hne
  | cons field fields =>
    cases fields with
    | nil => exact hfield field tail
    | cons next fields =>
      rw [List.map_cons, List.map_cons, commaSeparated, List.append_assoc]
      · exact hfield field _
      · simp

/-- The written form of an object of strings that is not empty, with blanks between its parts. -/
def recordText (before inner after : List Char) (fields : List (String × String)) : List Char :=
  '{' :: (commaSeparated (fields.map (fieldText before inner)) ++ (after ++ ['}']))

/-- The object with some strings as fields. -/
def ofTexts (fields : List (String × String)) : Json :=
  .record (fields.map fun field => (field.1, .text field.2))

theorem readValue_record {before inner after : List Char} (hbefore : Pad before) (hinner : Pad inner)
    (hafter : Pad after) {fields : List (String × String)} (hne : fields ≠ [])
    (hreads : ∀ field ∈ fields, reads field.1 = true) {fuel : Nat} (hfuel : fields.length < fuel)
    (depth : Nat) (rest : List Char) :
    readValue reads (fuel + 1) (depth + 1) (recordText before inner after fields ++ rest) =
      some (ofTexts fields, rest) := by
  obtain ⟨cs, hcs⟩ : ∃ cs, (commaSeparated (fields.map (fieldText before inner)) ++
      (after ++ '}' :: rest)).dropWhile isSpace = '"' :: cs := exists_quote_of_fields hbefore hne _
  have hfields := readFields_texts hbefore hinner hafter hne hreads hfuel depth rest
  -- Blanks at the start are skipped before the fields are read, which changes nothing.
  have hskip : readFields reads fuel depth ('"' :: cs) =
      some (fields.map fun field => (field.1, .text field.2), rest) := by
    obtain ⟨fuel, rfl⟩ : ∃ n, fuel = n + 1 := ⟨fuel - 1, by omega⟩
    rw [← hfields, readFields, readFields, hcs, List.dropWhile_cons_of_neg (by decide)]
  have hbody : (recordText before inner after fields ++ rest).dropWhile isSpace =
      '{' :: (commaSeparated (fields.map (fieldText before inner)) ++ (after ++ '}' :: rest)) := by
    rw [recordText, List.cons_append, List.dropWhile_cons_of_neg (by decide)]
    simp
  simp only [readValue, hbody, hcs]
  exact congrArg (Option.map fun p => (Json.record p.1, p.2)) hskip

/-- Objects of strings, each with at least one, are read back as the items of an array. -/
theorem readItems_records {objects : List (List (String × String))} (hne : objects ≠ []) {width : Nat}
    (hwidth : ∀ fields ∈ objects, fields ≠ [] ∧ fields.length ≤ width)
    (hreads : ∀ fields ∈ objects, ∀ field ∈ fields, reads field.1 = true) {fuel : Nat}
    (hfuel : objects.length + width < fuel) (depth : Nat) (rest : List Char) :
    readItems reads (fuel + 1) (depth + 1)
        (commaSeparated (objects.map (recordText [] [] [])) ++ ']' :: rest) =
      some (objects.map ofTexts, rest) := by
  -- Each item takes one unit of fuel, and what is left must do for the widest object.
  induction objects generalizing fuel with
  | nil => exact absurd rfl hne
  | cons fields objects ih =>
    obtain ⟨hfields, hle⟩ := hwidth fields List.mem_cons_self
    rw [List.length_cons] at hfuel
    obtain ⟨fuel, rfl⟩ : ∃ n, fuel = n + 1 := ⟨fuel - 1, by omega⟩
    have hfirst := readValue_record pad_nil pad_nil pad_nil hfields (hreads fields List.mem_cons_self)
      (show fields.length < fuel by omega) depth
    cases objects with
    | nil =>
      have hend : (']' :: rest).dropWhile isSpace = ']' :: rest :=
        List.dropWhile_cons_of_neg (by decide)
      simp only [List.map_cons, List.map_nil, commaSeparated, readItems, hfirst, hend]
    | cons next objects =>
      have hcomma (tail : List Char) : (',' :: tail).dropWhile isSpace = ',' :: tail :=
        List.dropWhile_cons_of_neg (by decide)
      have hrest := ih (by simp) (fun fields h => hwidth fields (List.mem_cons_of_mem _ h))
        (fun fields h => hreads fields (List.mem_cons_of_mem _ h))
        (show (next :: objects).length + width < fuel by omega)
      rw [List.map_cons] at hrest
      rw [List.map_cons, List.map_cons, commaSeparated, List.append_assoc, List.cons_append]
      · rw [readItems]
        simp only [hfirst, hcomma, hrest]
        rfl
      · simp

end Values

/-! ## §3 Whole texts -/

theorem length_le_commaSeparated {ts : List (List Char)} {t : List Char} (h : t ∈ ts) :
    t.length ≤ (commaSeparated ts).length := by
  induction ts with
  | nil => simp at h
  | cons u ts ih =>
    cases ts with
    | nil => exact Nat.le_of_eq (by rw [List.mem_singleton.1 h, commaSeparated])
    | cons v ts =>
      rw [commaSeparated, List.length_append, List.length_cons]
      · rcases List.mem_cons.1 h with rfl | h
        · omega
        · have := ih h
          omega
      · simp

/-- Texts that are not empty, with commas between them, have at least a character each. -/
theorem card_le_commaSeparated {ts : List (List Char)} (h : ∀ t ∈ ts, t ≠ []) :
    ts.length ≤ (commaSeparated ts).length := by
  induction ts with
  | nil => exact Nat.le_refl _
  | cons t ts ih =>
    have hpos := List.length_pos_iff.2 (h t List.mem_cons_self)
    have hrest := ih fun t ht => h t (List.mem_cons_of_mem _ ht)
    cases ts with
    | nil => exact hpos
    | cons v ts =>
      rw [commaSeparated, List.length_append, List.length_cons, List.length_cons (a := ',')]
      · omega
      · simp

theorem length_le_recordText (before inner after : List Char) (fields : List (String × String)) :
    fields.length < (recordText before inner after fields).length := by
  have hcard : (fields.map (fieldText before inner)).length ≤
      (commaSeparated (fields.map (fieldText before inner))).length := by
    refine card_le_commaSeparated fun t ht => ?_
    obtain ⟨field, -, rfl⟩ := List.mem_map.1 ht
    simp [fieldText, quote_eq]
  rw [List.length_map] at hcard
  simp only [recordText, List.length_cons, List.length_append]
  omega

/-- The compact text of an object of strings. -/
theorem write_ofTexts (fields : List (String × String)) :
    write (ofTexts fields) = recordText [] [] [] fields := by
  have hfields : writeFields (fields.map fun field => (field.1, .text field.2)) =
      fields.map (fieldText [] []) := by
    induction fields with
    | nil => rfl
    | cons field fields ih => rw [List.map_cons, writeFields, ih, write]; rfl
  rw [ofTexts, write, hfields]
  rfl

theorem writeItems_eq_map (items : List Json) : writeItems items = items.map write := by
  induction items with
  | nil => rfl
  | cons item items ih => rw [writeItems, ih, List.map_cons]

/-- An array of objects of strings, each with at least one and all of them asked for, is read back from
its compact text. -/
theorem parse_records {reads : String → Bool} {objects : List (List (String × String))}
    (h : ∀ fields ∈ objects, fields ≠ [] ∧ ∀ field ∈ fields, reads field.1 = true) :
    parseFields? reads (list (objects.map ofTexts)).compact = some (.list (objects.map ofTexts)) := by
  cases hobjects : objects with
  | nil => rfl
  | cons fields rest =>
    rw [← hobjects]
    have hwrite : (list (objects.map ofTexts)).compact.toList =
        '[' :: (commaSeparated (objects.map (recordText [] [] [])) ++ [']']) := by
      rw [compact, String.toList_ofList, write, writeItems_eq_map, List.map_map]
      simp only [Function.comp_def, write_ofTexts, List.cons_append]
    -- The fuel is twice the length of the text, which has at least one character for every object
    -- and at least as many as any of them has fields.
    have hcard : objects.length ≤ (commaSeparated (objects.map (recordText [] [] []))).length := by
      have hle : (objects.map (recordText [] [] [])).length ≤
          (commaSeparated (objects.map (recordText [] [] []))).length :=
        card_le_commaSeparated fun t ht => by
          obtain ⟨fields, -, rfl⟩ := List.mem_map.1 ht
          simp [recordText]
      rwa [List.length_map] at hle
    have hwidth : ∀ fields ∈ objects, fields ≠ [] ∧
        fields.length ≤ (commaSeparated (objects.map (recordText [] [] []))).length := by
      intro fields hmem
      have hlt := length_le_recordText [] [] [] fields
      have hle := length_le_commaSeparated (List.mem_map_of_mem (f := recordText [] [] []) hmem)
      exact ⟨(h fields hmem).1, by omega⟩
    have hfuel : objects.length + (commaSeparated (objects.map (recordText [] [] []))).length <
        stepBound (commaSeparated (objects.map (recordText [] [] [])) ++ [']']) := by
      rw [stepBound, List.length_append, List.length_singleton]
      omega
    have hitems := readItems_records (show objects ≠ [] by simp [hobjects]) hwidth
      (fun fields hmem => (h fields hmem).2) hfuel 125 []
    -- The text after the opening bracket starts with a brace.
    obtain ⟨cs, hcs⟩ : ∃ cs, commaSeparated (objects.map (recordText [] [] [])) ++ [']'] =
        '{' :: cs := by
      rw [hobjects, List.map_cons]
      cases rest with
      | nil => exact ⟨_, rfl⟩
      | cons next rest => exact ⟨_, rfl⟩
    rw [hcs] at hwrite hitems
    rw [parseFields?, hwrite]
    have hread : readValue reads (stepBound ('[' :: '{' :: cs)) maxDepth ('[' :: '{' :: cs) =
        some (.list (objects.map ofTexts), []) := by
      have hbracket : ('[' :: '{' :: cs).dropWhile isSpace = '[' :: '{' :: cs :=
        List.dropWhile_cons_of_neg (by decide)
      have hbrace : ('{' :: cs).dropWhile isSpace = '{' :: cs :=
        List.dropWhile_cons_of_neg (by decide)
      rw [show stepBound ('[' :: '{' :: cs) = stepBound ('{' :: cs) + 2 from rfl]
      simp only [maxDepth, readValue, hbracket, hbrace]
      exact congrArg (Option.map fun p => (Json.list p.1, p.2)) hitems
    simp only [hread]
    rfl

theorem pad_newline (level : Nat) : Pad (newline level) := by
  intro c hc
  rcases List.mem_cons.1 hc with rfl | hc
  · decide
  · rw [List.eq_of_mem_replicate hc]
    decide

theorem map_indentedFields (fields : List (String × String)) :
    (indentedFields 1 (fields.map fun field => (field.1, .text field.2))).map (newline 1 ++ ·) =
      fields.map (fieldText (newline 1) [' ']) := by
  induction fields with
  | nil => rfl
  | cons field fields ih =>
    rw [List.map_cons, indentedFields, List.map_cons, ih, writeIndented, List.map_cons, fieldText]
    simp

/-- The indented text of an object of strings with at least one of them. -/
theorem toList_indentedStrings {d : Dict String} (hne : d.entries ≠ []) :
    (indentedStrings d).toList = recordText (newline 1) [' '] (newline 0) d.entries := by
  have hblock : (indentedStrings d).toList = block '{' '}' 0
      (indentedFields 1 (d.entries.map fun field => (field.1, .text field.2))) := by
    rw [indentedStrings, indented, String.toList_ofList]
    rfl
  have hfields : indentedFields 1 (d.entries.map fun field => (field.1, .text field.2)) ≠ [] := by
    intro hnil
    have hmap := map_indentedFields d.entries
    rw [hnil, List.map_nil] at hmap
    exact hne (List.map_eq_nil_iff.1 hmap.symm)
  rw [hblock, block, map_indentedFields, recordText]
  · simp
  · exact hfields

/-- An object of strings is read back from its indented text. -/
theorem parse_indentedStrings (d : Dict String) :
    parseAsWritten? (indentedStrings d) = some (ofTexts d.entries) := by
  by_cases hne : d.entries = []
  · -- The empty object is written on one line.
    obtain rfl : d = Dict.empty := Dict.ext hne
    rfl
  · have hlength := length_le_recordText (newline 1) [' '] (newline 0) d.entries
    have hfuel : d.entries.length <
        2 * (recordText (newline 1) [' '] (newline 0) d.entries).length + 1 := by
      omega
    have hread : readValue (fun _ => true)
        (stepBound (recordText (newline 1) [' '] (newline 0) d.entries)) maxDepth
        (recordText (newline 1) [' '] (newline 0) d.entries ++ []) = some (ofTexts d.entries, []) :=
      readValue_record (pad_newline 1) (show Pad [' '] by simp [Pad, isSpace]) (pad_newline 0) hne
        (fun _ _ => rfl) hfuel 126 []
    rw [List.append_nil] at hread
    rw [parseAsWritten?, parseFields?, toList_indentedStrings hne]
    simp only [hread]
    rfl

/-! ## §4 Texts of blanks -/

theorem isDigit_of_isBlank {c : Char} (hc : Text.isBlank c = true) : c.isDigit = false := by
  rw [← Bool.not_eq_true]
  intro hdigit
  simp only [Char.isDigit, Bool.and_eq_true, decide_eq_true_eq] at hdigit
  have hlow : 48 ≤ c.toNat := hdigit.1
  have hhigh : c.toNat ≤ 57 := hdigit.2
  simp only [Text.isBlank, Bool.or_eq_true, Bool.and_eq_true, decide_eq_true_eq, beq_iff_eq] at hc
  omega

theorem readNumber_of_isBlank {cs : List Char} (h : ∀ c ∈ cs, Text.isBlank c = true) :
    readNumber cs = none := by
  have hnegative (rest : List Char) : cs ≠ '-' :: rest := by
    rintro rfl
    exact absurd (h '-' List.mem_cons_self) (by decide)
  have hdigits : digits cs = [] := by
    cases cs with
    | nil => rfl
    | cons c cs =>
      rw [digits, List.takeWhile_cons_of_neg]
      simp [isDigit_of_isBlank (h c List.mem_cons_self)]
  unfold readNumber
  split
  rename_i hsign
  split at hsign
  · exact absurd rfl (hnegative _)
  · cases hsign
    rw [hdigits]

/-- No value is made of blanks, and not all of them are spaces of JSON. -/
theorem parseAsWritten?_of_isBlankText {s : String} (h : Text.isBlankText s = true) :
    parseAsWritten? s = none := by
  have hnone (fuel depth : Nat) (cs : List Char) (hcs : ∀ c ∈ cs, Text.isBlank c = true) :
      readValue (fun _ => true) fuel depth cs = none := by
    cases fuel with
    | zero => rw [readValue]
    | succ fuel =>
      -- Without the spaces of JSON only blanks are left, and no kind of value starts with one.
      have hrest : ∀ c ∈ cs.dropWhile isSpace, Text.isBlank c = true := fun c hc =>
        hcs c ((List.dropWhile_sublist _).mem hc)
      rw [readValue]
      split
      · exact absurd (hrest '"' (by simp [*])) (by decide)
      · exact absurd (hrest '[' (by simp [*])) (by decide)
      · exact absurd (hrest '{' (by simp [*])) (by decide)
      · exact absurd (hrest 'n' (by simp [*])) (by decide)
      · exact absurd (hrest 't' (by simp [*])) (by decide)
      · exact absurd (hrest 'f' (by simp [*])) (by decide)
      · rw [readNumber_of_isBlank hrest, Option.map_none]
  rw [parseAsWritten?, parseFields?]
  simp only [hnone _ _ s.toList (by simpa [Text.isBlankText] using h)]

end Stencil.Json
