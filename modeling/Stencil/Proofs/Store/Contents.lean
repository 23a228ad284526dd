import Mathlib.Data.List.Forall2
import Stencil.Proofs.Dict
import Stencil.Proofs.Json.Reading
import Stencil.Store.File
import Stencil.Store.Variables

/-!
# What the Store File and the Record List Are Read As

Bytes are read as items exactly if they are a text of blanks, which has none, or a JSON object of
strings, whose fields are the items.  The text under the key of the record list is read as records
exactly if it is a JSON list in which every element stands for a record.

Main statements: `decodeItems_eq_ok_iff` and `decodeRecords_eq_ok_iff`.
-/

namespace Stencil.Store

open Text

variable {α β : Type}

/-! ## §1 Items -/

theorem fromUTF8?_eq_some_iff {content : ByteArray} {s : String} :
    String.fromUTF8? content = some s ↔ content = s.toUTF8 := by
  rw [String.toUTF8_eq_toByteArray]
  constructor
  · intro h
    rw [String.fromUTF8?] at h
    split at h
    · cases h
      rfl
    · exact absurd h (by simp)
  · rintro rfl
    rw [String.fromUTF8?, dif_pos s.isValidUTF8]
    rfl

theorem mapM_eq_some_iff {f : α → Option β} {as : List α} {bs : List β} :
    as.mapM f = some bs ↔ List.Forall₂ (fun a b => f a = some b) as bs := by
  induction as generalizing bs with
  | nil => simp [eq_comm]
  | cons a as ih =>
    rw [List.mapM_cons]
    constructor
    · intro h
      obtain ⟨b, hb, h⟩ := Option.bind_eq_some_iff.1 h
      obtain ⟨bs', hbs, h⟩ := Option.bind_eq_some_iff.1 h
      cases h
      exact .cons hb (ih.1 hbs)
    · rintro (_ | ⟨hb, hbs⟩)
      rw [hb, ih.2 hbs]
      rfl

theorem itemsOf?_eq_some_iff {v : Json} {d : Items} :
    itemsOf? v = some d ↔ ∃ fields, v = Json.ofTexts fields ∧ d = Dict.ofList fields := by
  have hfield (e : String × Json) (field : String × String) :
      (Json.text? e.2).map (e.1, ·) = some field ↔ e = (field.1, .text field.2) := by
    obtain ⟨key, v⟩ := e
    obtain ⟨key', s⟩ := field
    cases v <;> simp [Json.text?]
  have hfields (es : List (String × Json)) (fields : List (String × String)) :
      es.mapM (fun e => (Json.text? e.2).map (e.1, ·)) = some fields ↔
        es = fields.map fun field => (field.1, .text field.2) := by
    simp only [mapM_eq_some_iff, hfield]
    rw [← List.forall₂_map_right_iff (R := Eq), List.forall₂_eq_eq_eq]
  cases v with
  | record es =>
    simp only [itemsOf?, Option.map_eq_some_iff, hfields, Json.ofTexts, Json.record.injEq]
    constructor
    · rintro ⟨fields, hes, rfl⟩
      exact ⟨fields, hes, rfl⟩
    · rintro ⟨fields, hes, rfl⟩
      exact ⟨fields, hes, rfl⟩
  | _ => simp [itemsOf?, Json.ofTexts]

/-- Whether bytes are a text of blanks. -/
def IsBlankContent (content : ByteArray) : Prop :=
  ∃ text : String, content = text.toUTF8 ∧ isBlankText text = true

/-- Whether bytes are a JSON object with these strings as its fields, in the order they are written. -/
def IsObject (content : ByteArray) (fields : List (String × String)) : Prop :=
  ∃ text : String, content = text.toUTF8 ∧ Json.parseAsWritten? text = some (Json.ofTexts fields)

/-- **What bytes are read as.**  A text of blanks has no items, and the items of a JSON object of strings
are its fields, of which the last with a key counts.  Nothing else is read. -/
theorem decodeItems_eq_ok_iff {content : ByteArray} {d : Items} :
    decodeItems content = .ok d ↔ (IsBlankContent content ∧ d = .empty) ∨
      ∃ fields, IsObject content fields ∧ d = Dict.ofList fields := by
  unfold decodeItems IsBlankContent IsObject
  cases htext : String.fromUTF8? content with
  -- Bytes that are no text are those of no text.
  | none =>
    have hno (text : String) : content ≠ text.toUTF8 := fun heq =>
      absurd (htext.symm.trans (fromUTF8?_eq_some_iff.2 heq)) (by simp)
    simp only [hno, false_and, exists_false, or_false, reduceCtorEq]
  | some s =>
    obtain rfl := fromUTF8?_eq_some_iff.1 htext
    have hsame (text : String) : s.toUTF8 = text.toUTF8 ↔ text = s := by
      rw [← fromUTF8?_eq_some_iff, htext, Option.some_inj, eq_comm]
    simp only [hsame, exists_eq_left]
    -- A blank text is no JSON value, so at most one of the two applies.
    cases hblank : isBlankText s with
    | true => simp [Json.parseAsWritten?_of_isBlankText hblank, eq_comm]
    | false =>
      have hobject : (Json.parseAsWritten? s).bind itemsOf? = some d ↔
          ∃ fields, Json.parseAsWritten? s = some (Json.ofTexts fields) ∧ d = Dict.ofList fields := by
        simp only [Option.bind_eq_some_iff, itemsOf?_eq_some_iff]
        constructor
        · rintro ⟨v, hv, fields, rfl, rfl⟩
          exact ⟨fields, hv, rfl⟩
        · rintro ⟨fields, hv, rfl⟩
          exact ⟨_, hv, fields, rfl, rfl⟩
      rw [← hobject]
      cases (Json.parseAsWritten? s).bind itemsOf? <;> simp

theorem decodeItems_blank {text : String} (h : isBlankText text = true) :
    decodeItems text.toUTF8 = .ok .empty :=
  decodeItems_eq_ok_iff.2 (.inl ⟨⟨text, rfl, h⟩, rfl⟩)

theorem decodeItems_encodeItems (d : Items) : decodeItems (encodeItems d) = .ok d :=
  decodeItems_eq_ok_iff.2
    (.inr ⟨d.entries, ⟨_, rfl, Json.parse_indentedStrings d⟩, d.ofList_entries.symm⟩)

/-! ## §2 Records -/

/-- Whether a text is a JSON list in which every element stands for a record, whatever the values of
the fields that no record has. -/
def IsRecordList (raw : String) (records : List Record) : Prop :=
  ∃ values, Json.parseFields? Record.keys.contains raw = some (.list values) ∧
    List.Forall₂ (fun v record => Record.ofJson? v = some record) values records

/-- **What the text of the record list is read as.**  A JSON list is read element by element, and
nothing else is read. -/
theorem decodeRecords_eq_ok_iff {raw : String} {records : List Record} :
    decodeRecords raw = .ok records ↔ IsRecordList raw records := by
  unfold decodeRecords IsRecordList
  split
  · rename_i values hvalues
    simp only [hvalues, Option.some_inj, Json.list.injEq, exists_eq_left', ← mapM_eq_some_iff]
    cases values.mapM Record.ofJson? <;> simp
  · rename_i hvalues
    refine ⟨fun h => absurd h (by simp), ?_⟩
    rintro ⟨values, hparse, -⟩
    exact absurd hparse (hvalues values)

-- The field that no record has holds a number out of range and half a character.
example : decodeRecords
    "[\x7b\"x\": [1e999, \"\\ud800\"], \"name\": \"a\", \"value\": \"b\", \"initialValue\": \"c\"\x7d]" =
      .ok [⟨"a", "b", "c"⟩] := by
  decide +kernel

end Stencil.Store
