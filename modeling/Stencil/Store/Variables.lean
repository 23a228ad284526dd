import Stencil.Store.Backend
import Stencil.Json.Parser
import Stencil.Json.Printer
import Stencil.Text.Blank
import Stencil.Text.Integer

/-!
# Variables and counters

A variable has a name, a value, and the value it was made with.  All variables are one list of
records under one key, the least recently set first.  Counters are whole numbers of 64 bits, each
under a key of its own, so that a variable and a counter of one name never meet.
-/

namespace Stencil.Store

/-! ## Records -/

/-- A variable. -/
structure Record where
  /-- The name. -/
  name : String
  /-- The current value. -/
  value : String
  /-- The value it was made with. -/
  initial : String
  deriving DecidableEq, Repr, Inhabited

namespace Record

/-- The keys of its fields. -/
def keys : List String := ["name", "value", "initialValue"]

/-- A record as it is kept. -/
def toJson (r : Record) : Json :=
  .record [("name", .text r.name), ("value", .text r.value), ("initialValue", .text r.initial)]

/-- The one value under a key, if there is exactly one and it is a string. -/
def soleText? (fields : List (String × Json)) (key : String) : Option String :=
  match fields.filter (·.1 == key) with
  | [(_, .text s)] => some s
  | _ => none

/-- The record a value stands for: an object with the three fields and possibly others, or a list of
the three values. -/
def ofJson? : Json → Option Record
  | .record fields => do
    some ⟨← soleText? fields "name", ← soleText? fields "value", ← soleText? fields "initialValue"⟩
  | .list [.text name, .text value, .text initial] => some ⟨name, value, initial⟩
  | _ => none

end Record

/-- The text of a record list. -/
def encodeRecords (records : List Record) : String := (Json.list (records.map Record.toJson)).compact

/-- The record list a text stands for.  The values of other fields are passed over. -/
def decodeRecords (raw : String) : Except Failure (List Record) :=
  match Json.parseFields? Record.keys.contains raw with
  | some (.list items) =>
    match items.mapM Record.ofJson? with
    | some records => .ok records
    | none => .error .malformedRecords
  | _ => .error .malformedRecords

/-- The value of a variable, empty when there is none. -/
def valueIn (records : List Record) (name : String) : String :=
  ((records.find? (·.name == name)).map (·.value)).getD ""

/-- The records without the first of a name. -/
def dropFirst (records : List Record) (name : String) : List Record :=
  records.eraseP (·.name == name)

/-- The records after setting a variable, which goes to the end and keeps its initial value. -/
def setIn (records : List Record) (name value : String) : List Record :=
  match records.find? (·.name == name) with
  | some old => dropFirst records name ++ [{ old with value := value }]
  | none => records ++ [⟨name, value, value⟩]

/-- The initial value of a variable and the records after going back to it, which moves it to the
end; nothing when there is no such variable. -/
def resetIn? (records : List Record) (name : String) : Option (String × List Record) :=
  (records.find? (·.name == name)).map fun old =>
    (old.initial, dropFirst records name ++ [{ old with value := old.initial }])

/-- The records without a variable. -/
def deleteIn (records : List Record) (name : String) : List Record :=
  records.filter (·.name != name)

/-! ## Operations -/

/-- The key of the record list. -/
def variablesKey : String := "--persistent-variables"

/-- The key of a counter. -/
def counterKey (id : String) : String := "id-" ++ id

variable {σ : Type}

/-- The records. -/
def load (b : Backend σ) : Action Failure σ (List Record) := do
  match ← b.getItem variablesKey with
  | some raw =>
    match decodeRecords raw with
    | .ok records => return records
    | .error e => throw e
  | none => return []

/-- Keeps records. -/
def save (b : Backend σ) (records : List Record) : Action Failure σ Unit :=
  b.setItem variablesKey (encodeRecords records)

/-- The value of a variable, empty when there is none. -/
def get (b : Backend σ) (name : String) : Action Failure σ String := do
  return valueIn (← load b) name

/-- Makes or changes a variable. -/
def set (b : Backend σ) (name value : String) : Action Failure σ Unit := do
  save b (setIn (← load b) name value)

/-- Takes a variable back to its initial value and gives that; an absent one changes nothing. -/
def reset (b : Backend σ) (name : String) : Action Failure σ String := do
  match resetIn? (← load b) name with
  | some (value, records) => do
    save b records
    return value
  | none => return ""

/-- Removes a variable; an absent one changes nothing. -/
def delete (b : Backend σ) (name : String) : Action Failure σ Unit := do
  let records ← load b
  let kept := deleteIn records name
  if kept.length ≠ records.length then save b kept

/-- The variables, the least recently set first. -/
def list (b : Backend σ) : Action Failure σ (List Record) := load b

/-- The number a counter's text stands for: zero when it is no number of 64 bits. -/
def counterValue (raw : String) : Int := (Text.int64? (Text.trimChars raw.toList)).getD 0

/-- The value of a counter, zero when there is none. -/
def counter (b : Backend σ) (id : String) : Action Failure σ Int := do
  return counterValue ((← b.getItem (counterKey id)).getD "0")

/-- Adds to a counter, staying within 64 bits, and gives the text of the new value. -/
def step (b : Backend σ) (id : String) (delta : Int) : Action Failure σ String := do
  let next := toString (Text.clampInt64 ((← counter b id) + delta))
  b.setItem (counterKey id) next
  return next

/-- Adds one to a counter. -/
def increment (b : Backend σ) (id : String) : Action Failure σ String := step b id 1

/-- Takes one from a counter. -/
def decrement (b : Backend σ) (id : String) : Action Failure σ String := step b id (-1)

end Stencil.Store
