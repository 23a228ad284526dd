import Stencil.Sandbox.Expr
import Stencil.Text.Integer

/-!
# Operators of sandboxed scripts

Whole numbers are those of 64 bits, and a result that is none of them is a failure.  A whole number
beside a floating-point number counts as one.  Anything can be added to a text.
-/

namespace Stencil.Sandbox

/-- A result, or nothing for a failure. -/
abbrev Result := Option Value

/-- A whole number, if it has 64 bits. -/
def checked (n : Int) : Result :=
  if Text.minInt64 ≤ n && n ≤ Text.maxInt64 then some (.int n) else none

/-- A power of whole numbers. -/
def power (a b : Int) : Result :=
  if b < 0 then none
  else if a = 0 || a = 1 || a = -1 then
    some (.int (if b = 0 then 1 else if a = -1 && b % 2 = 0 then 1 else a))
  -- All other bases have left 64 bits by then.
  else if 64 ≤ b then none
  else checked (Int.pow a b.toNat)

/-- A shift, to the other side when it is negative. -/
def shift (a b : Int) : Int :=
  if b < 0 then a / Int.pow 2 (min b.natAbs 64)
  else Int.bmod (a * Int.pow 2 (min b.toNat 64)) (Nat.pow 2 64)

/-- The bits of two numbers combined. -/
def onBits (f : UInt64 → UInt64 → UInt64) (a b : Int) : Value :=
  let word (n : Int) : UInt64 := (n % Int.pow 2 64).toNat.toUInt64
  .int (Int.bmod (Int.ofNat (f (word a) (word b)).toNat) (Nat.pow 2 64))

/-- An operator on whole numbers. -/
def onInts (op : Operator) (a b : Int) : Result :=
  match op with
  | .add => checked (a + b)
  | .subtract => checked (a - b)
  | .multiply => checked (a * b)
  | .divide => if b = 0 then none else checked (a.tdiv b)
  | .remainder => if b = 0 then none else checked (a.tmod b)
  | .power => power a b
  | .shiftLeft => some (.int (shift a b))
  | .shiftRight => some (.int (shift a (-b)))
  | .bitAnd => some (onBits (· &&& ·) a b)
  | .bitOr => some (onBits (· ||| ·) a b)
  | .bitXor => some (onBits (· ^^^ ·) a b)
  | .equal => some (.bool (a == b))
  | .notEqual => some (.bool (a != b))
  | .less => some (.bool (a < b))
  | .lessEqual => some (.bool (a ≤ b))
  | .greater => some (.bool (b < a))
  | .greaterEqual => some (.bool (b ≤ a))

/-- A floating-point number without its fraction. -/
def truncate (x : Float) : Float := if x < 0.0 then x.ceil else x.floor

/-- An operator on floating-point numbers. -/
def onFloats (op : Operator) (a b : Float) : Result :=
  match op with
  | .add => some (.float (a + b))
  | .subtract => some (.float (a - b))
  | .multiply => some (.float (a * b))
  | .divide => some (.float (a / b))
  | .remainder => some (.float (a - b * truncate (a / b)))
  | .power => some (.float (a ^ b))
  | .equal => some (.bool (a == b))
  | .notEqual => some (.bool (a != b))
  | .less => some (.bool (a < b))
  | .lessEqual => some (.bool (a ≤ b))
  | .greater => some (.bool (a > b))
  | .greaterEqual => some (.bool (a ≥ b))
  | _ => none

/-- An operator on texts. -/
def onTexts (op : Operator) (a b : String) : Result :=
  match op with
  | .add => some (.text (a ++ b))
  | .subtract => some (.text (if b.isEmpty then a else a.replace b ""))
  | .equal => some (.bool (a == b))
  | .notEqual => some (.bool (a != b))
  | .less => some (.bool (a < b))
  | .lessEqual => some (.bool (a ≤ b))
  | .greater => some (.bool (b < a))
  | .greaterEqual => some (.bool (b ≤ a))
  | _ => none

/-- An operator on truth values. -/
def onBools (op : Operator) (a b : Bool) : Result :=
  match op with
  | .bitAnd => some (.bool (a && b))
  | .bitOr => some (.bool (a || b))
  | .bitXor | .notEqual => some (.bool (a != b))
  | .equal => some (.bool (a == b))
  | .less => some (.bool (!a && b))
  | .lessEqual => some (.bool (!a || b))
  | .greater => some (.bool (a && !b))
  | .greaterEqual => some (.bool (a || !b))
  | _ => none

/-- A comparison of values of different types, or of types without an order: they are not equal, and
neither comes before the other. -/
def compareOthers (op : Operator) (a b : Value) : Result :=
  match op with
  | .equal => some (.bool (a.same b))
  | .notEqual => some (.bool !(a.same b))
  | .less | .lessEqual | .greater | .greaterEqual => some (.bool false)
  | _ => none

/-- The value of an operator on two values. -/
def Operator.apply (op : Operator) (a b : Value) : Result :=
  match a, b with
  | .int a, .int b => onInts op a b
  | .int a, .float b => onFloats op (Float.ofInt a) b
  | .float a, .int b => onFloats op a (Float.ofInt b)
  | .float a, .float b => onFloats op a b
  | .bool a, .bool b => onBools op a b
  | .text a, .text b => onTexts op a b
  | .text a, .char b => onTexts op a (.ofList [b])
  | .char a, .text b => onTexts op (.ofList [a]) b
  | .char a, .char b => onTexts op (.ofList [a]) (.ofList [b])
  | a, b =>
    if op = .add then
      match a, b with
      | .text a, b => some (.text (a ++ b.display))
      | a, .text b => some (.text (a.display ++ b))
      | .array a, .array b => some (.array (a ++ b))
      | .map a, .map b => some (.map (b.foldl (fun es (k, v) => putEntry k v es) a))
      | _, _ => none
    else compareOthers op a b

/-- Whether a value is in another. -/
def isIn (a b : Value) : Result :=
  match a, b with
  | a, .array items => some (.bool (items.any a.same))
  | .text a, .text b => some (.bool (a.isEmpty || (b.splitOn a).length > 1))
  | .char a, .text b => some (.bool (b.toList.contains a))
  | .text a, .map entries => some (.bool (entries.any (·.1 == a)))
  | .int n, .range first last inclusive =>
    some (.bool (first ≤ n && (if inclusive then n ≤ last else n < last)))
  | _, _ => none

/-- The position in a list that an index means; a negative one counts from the end. -/
def position? (length : Nat) (i : Int) : Option Nat :=
  let n := if i < 0 then i + length else i
  -- A negative index may reach beyond the start.
  if 0 ≤ n && n < length then some n.toNat else none

/-- An item of a value. -/
def itemOf (v i : Value) : Result :=
  match v, i with
  | .array items, .int i => do items[← position? items.length i]?
  | .text s, .int i => do
    let cs := s.toList
    (cs[← position? cs.length i]?).map .char
  | .map entries, .text key => some ((entries.lookup key).getD .unit)
  | .int n, .int i => do
    let i ← position? 64 i
    some (.bool ((n % Int.pow 2 64).toNat / Nat.pow 2 i % 2 = 1))
  | .text s, .range first last inclusive =>
    let stop := if inclusive then last + 1 else last
    some (.text (.ofList ((s.toList.drop first.toNat).take (stop - max first 0).toNat)))
  | _, _ => none

/-- A value with an item replaced. -/
def withItem (v i item : Value) : Result :=
  match v, i with
  | .array items, .int i => do some (.array (items.set (← position? items.length i) item))
  | .text s, .int i =>
    match item with
    | .char c => do
      let cs := s.toList
      some (.text (.ofList (cs.set (← position? cs.length i) c)))
    | _ => none
  | .map entries, .text key => some (.map (putEntry key item entries))
  | _, _ => none

end Stencil.Sandbox
