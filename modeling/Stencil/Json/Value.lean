import Stencil.Dict

/-!
# JSON values

Structured data: what contexts hold, what the store keeps, and what web services answer.
-/

namespace Stencil

/-- A JSON number.  Whole numbers are those written without point and exponent, as far as they fit
into 64 bits; all others are floating-point. -/
inductive Number where
  /-- A whole number. -/
  | int (n : Int)
  /-- A floating-point number. -/
  | float (x : Float)
  deriving Inhabited

/-- A JSON value.  The fields of an object are in increasing key order. -/
inductive Json where
  /-- The absent value. -/
  | null
  /-- True or false. -/
  | bool (b : Bool)
  /-- A number. -/
  | number (n : Number)
  /-- A string. -/
  | text (s : String)
  /-- An array. -/
  | list (items : List Json)
  /-- An object. -/
  | record (fields : List (String × Json))
  deriving Inhabited

namespace Json

/-- The object with the entries of a dictionary. -/
def ofDict (d : Dict Json) : Json := .record d.entries

/-- The entries of an object; of several with one key the last counts. -/
def toDict? : Json → Option (Dict Json)
  | .record fields => some (Dict.ofList fields)
  | _ => none

/-- The value of a field of an object. -/
def field? (key : String) : Json → Option Json
  | .record fields => fields.lookup key
  | _ => none

/-- The string, if the value is one. -/
def text? : Json → Option String
  | .text s => some s
  | _ => none

/-- The items, if the value is an array. -/
def items? : Json → Option (List Json)
  | .list items => some items
  | _ => none

/-- The truth value, if the value is one. -/
def bool? : Json → Option Bool
  | .bool b => some b
  | _ => none

/-- The whole number, if the value is one. -/
def int? : Json → Option Int
  | .number (.int n) => some n
  | _ => none

/-- An object from entries in any order. -/
def object (entries : List (String × Json)) : Json := ofDict (Dict.ofList entries)

instance : Coe String Json := ⟨.text⟩

end Json

end Stencil
