import Stencil.Sandbox.Operation
import Stencil.Text.Case
import Stencil.Text.Search
import Stencil.Text.Blank
import Stencil.Sandbox.Lexeme

/-!
# The library of sandboxed scripts

Functions that scripts can call without a host.  A function may change its first argument; it gives
its result and what the first argument has become.
-/

namespace Stencil.Sandbox

/-- What a call comes to: no such function, a failure, or a result with the first argument as it is
then. -/
inductive Called where
  /-- There is no function for such arguments. -/
  | unknown
  /-- The call fails. -/
  | failed
  /-- The result, and the first argument if it has changed. -/
  | done (result : Value) (changed : Option Value)

namespace Called

/-- A result, or a failure. -/
def ofResult : Result → Called
  | some v => done v none
  | none => failed

/-- A result. -/
def value (v : Value) : Called := done v none

/-- No result, but a changed first argument. -/
def change (v : Value) : Called := done .unit (some v)

end Called

/-- The number that a text is in a base. -/
def parseInt? (s : String) (base : Nat) : Result :=
  let cs := Text.trimChars s.toList
  let (negative, ds) := match cs with
    | '-' :: ds => (true, ds)
    | '+' :: ds => (false, ds)
    | ds => (false, ds)
  if ds.isEmpty || !ds.all fun c => (Lexeme.hexValue? c).any (· < base) then none
  else
    let n : Int := Lexeme.ofDigits base ds
    checked (if negative then -n else n)

/-- The floating-point number that a text is. -/
def parseFloat? (s : String) : Result :=
  let cs := Text.trimChars s.toList
  let (negative, ds) := match cs with
    | '-' :: ds => (true, ds)
    | '+' :: ds => (false, ds)
    | ds => (false, ds)
  let signed (x : Float) : Result := some (.float (if negative then -x else x))
  match Text.lower (.ofList ds) with
  | "inf" | "infinity" => signed (1.0 / 0.0)
  | "nan" => signed (0.0 / 0.0)
  | _ =>
    let whole := ds.takeWhile Char.isDigit
    let (places, rest) := match ds.drop whole.length with
      | '.' :: rest => (rest.takeWhile Char.isDigit, rest.dropWhile Char.isDigit)
      | rest => ([], rest)
    let exponent : Option Int := match rest with
      | [] => some 0
      | e :: more =>
        let (below, es) := match more with
          | '-' :: es => (true, es)
          | '+' :: es => (false, es)
          | es => (false, es)
        if (e == 'e' || e == 'E') && !es.isEmpty && es.all Char.isDigit then
          let n : Int := Lexeme.ofDigits 10 es
          some (if below then -n else n)
        else none
    let digits := whole ++ places
    match exponent with
    | some e =>
      if digits.isEmpty then none
      else
        -- The power is cut where the number is zero or infinite whatever its digits are.
        let power := max (-400 - (digits.length : Int)) (min 400 (e - (places.length : Int)))
        signed (Float.ofScientific (Lexeme.ofDigits 10 digits) (power < 0) power.natAbs)
    | none => none

/-- A floating-point number as a whole one. -/
def floatToInt (x : Float) : Result :=
  if x.isNaN || x.abs ≥ 9223372036854775808.0 then none
  else some (.int (if x < 0.0 then -(Int.ofNat (-x).toUInt64.toNat) else Int.ofNat x.toUInt64.toNat))

/-- A floating-point number rounded to a whole one, a half away from zero. -/
def roundHalf (x : Float) : Float := if x < 0.0 then -((-x + 0.5).floor) else (x + 0.5).floor

/-- The position of a text in another, from a start. -/
def indexFrom (needle : List Char) (position : Nat) (cs : List Char) : Int :=
  match cs with
  | [] => if needle.isEmpty then position else -1
  | _ :: rest => if needle.isPrefixOf cs then position else indexFrom needle (position + 1) rest

/-- Part of a list, from a position that may count from the end. -/
def part {α : Type} (items : List α) (start : Int) (length : Int) : List α :=
  let start := if start < 0 then (start + items.length).toNat else start.toNat
  (items.drop start).take length.toNat

/-- The words of a text between blanks. -/
def wordsOf (cs : List Char) : List Value :=
  ((Text.splitWhere Text.isBlank cs).filter (!·.isEmpty)).map fun w => .text (.ofList w)

/-- Functions on numbers. -/
def onNumber (f : String) (arguments : List Value) : Called :=
  match f, arguments with
  | "abs", [.int n] => .ofResult (checked (if n < 0 then -n else n))
  | "abs", [.float x] => .value (.float x.abs)
  | "sign", [.int n] => .value (.int n.sign)
  | "sign", [.float x] => .value (.int (if x > 0.0 then 1 else if x < 0.0 then -1 else 0))
  | "is_zero", [.int n] => .value (.bool (n == 0))
  | "is_zero", [.float x] => .value (.bool (x == 0.0))
  | "is_odd", [.int n] => .value (.bool (n % 2 != 0))
  | "is_even", [.int n] => .value (.bool (n % 2 == 0))
  | "max", [.int a, .int b] => .value (.int (max a b))
  | "min", [.int a, .int b] => .value (.int (min a b))
  | "max", [.float a, .float b] => .value (.float (if a < b then b else a))
  | "min", [.float a, .float b] => .value (.float (if b < a then b else a))
  | "max", [.int a, .float b] =>
    let a := Float.ofInt a
    .value (.float (if a < b then b else a))
  | "max", [.float a, .int b] =>
    let b := Float.ofInt b
    .value (.float (if a < b then b else a))
  | "min", [.int a, .float b] =>
    let a := Float.ofInt a
    .value (.float (if b < a then b else a))
  | "min", [.float a, .int b] =>
    let b := Float.ofInt b
    .value (.float (if b < a then b else a))
  | "floor", [.float x] => .value (.float x.floor)
  | "ceiling", [.float x] => .value (.float x.ceil)
  | "round", [.float x] => .value (.float (roundHalf x))
  | "int", [.float x] => .value (.float (truncate x))
  | "fraction", [.float x] => .value (.float (x - truncate x))
  | "to_int", [.float x] => .ofResult (floatToInt x)
  | "to_int", [.int n] => .value (.int n)
  | "to_float", [.int n] => .value (.float (Float.ofInt n))
  | "to_float", [.float x] => .value (.float x)
  | "sqrt", [.float x] => .value (.float x.sqrt)
  | "sqrt", [.int n] => .value (.float (Float.ofInt n).sqrt)
  | "exp", [.float x] => .value (.float x.exp)
  | "ln", [.float x] => .value (.float x.log)
  | "log", [.float x] => .value (.float x.log10)
  | "sin", [.float x] => .value (.float x.sin)
  | "cos", [.float x] => .value (.float x.cos)
  | "tan", [.float x] => .value (.float x.tan)
  | "is_nan", [.float x] => .value (.bool x.isNaN)
  | "is_infinite", [.float x] => .value (.bool x.isInf)
  | "is_finite", [.float x] => .value (.bool x.isFinite)
  | "to_hex", [.int n] => .value (.text (.ofList (Nat.toDigits 16 (n % Int.pow 2 64).toNat)))
  | "to_octal", [.int n] => .value (.text (.ofList (Nat.toDigits 8 (n % Int.pow 2 64).toNat)))
  | "to_binary", [.int n] => .value (.text (.ofList (Nat.toDigits 2 (n % Int.pow 2 64).toNat)))
  | "range", [.int a, .int b] => .value (.range a b false)
  | "range", [.int a, .int b, .int step] => if step = 0 then .failed else .value (.steps a b step)
  | "PI", [] => .value (.float 3.141592653589793)
  | "E", [] => .value (.float 2.718281828459045)
  | _, _ => .unknown

/-- Functions on texts. -/
def onText (f : String) (s : String) (arguments : List Value) : Called :=
  let cs := s.toList
  let changed (cs : List Char) : Called := .change (.text (.ofList cs))
  let needle? : Value → Option (List Char)
    | .text t => some t.toList
    | .char c => some [c]
    | _ => none
  match f, arguments with
  | "len", [] => .value (.int cs.length)
  | "bytes", [] => .value (.int s.utf8ByteSize)
  | "is_empty", [] => .value (.bool s.isEmpty)
  | "to_upper", [] => .value (.text (Text.upper s))
  | "to_lower", [] => .value (.text (Text.lower s))
  | "make_upper", [] => .change (.text (Text.upper s))
  | "make_lower", [] => .change (.text (Text.lower s))
  | "trim", [] => changed (Text.trimChars cs)
  | "clear", [] => changed []
  | "parse_int", [] => .ofResult (parseInt? s 10)
  | "parse_int", [.int base] =>
    .ofResult (if 2 ≤ base && base ≤ 16 then parseInt? s base.toNat else none)
  | "parse_float", [] => .ofResult (parseFloat? s)
  | "split", [] => .value (.array (wordsOf cs))
  | "split", [.int n] =>
    let n := (if n < 0 then n + cs.length else n).toNat
    .value (.array [.text (.ofList (cs.take n)), .text (.ofList (cs.drop n))])
  | "split", [v] =>
    match needle? v with
    -- An empty text is found around every character, so the first and the last part are empty.
    | some [] => .value (.array (([[]] ++ cs.map ([·]) ++ [[]]).map fun p => .text (.ofList p)))
    | some d => .value (.array ((Text.splitOnText d cs).map fun p => .text (.ofList p)))
    | none => .unknown
  | "contains", [v] =>
    match needle? v with
    | some n => .value (.bool (Text.isInfix n cs))
    | none => .unknown
  | "starts_with", [.text t] => .value (.bool (t.toList.isPrefixOf cs))
  | "ends_with", [.text t] => .value (.bool (t.toList.isSuffixOf cs))
  | "index_of", [v] =>
    match needle? v with
    | some n => .value (.int (indexFrom n 0 cs))
    | none => .unknown
  | "index_of", [v, .int start] =>
    match needle? v with
    | some n => .value (.int (indexFrom n start.toNat (cs.drop start.toNat)))
    | none => .unknown
  | "sub_string", [.int start] => .value (.text (.ofList (part cs start cs.length)))
  | "sub_string", [.int start, .int length] => .value (.text (.ofList (part cs start length)))
  | "sub_string", [.range a b inclusive] =>
    .value (.text (.ofList (part cs (max a 0) ((if inclusive then b + 1 else b) - max a 0))))
  | "crop", [.int start] => changed (part cs start cs.length)
  | "crop", [.int start, .int length] => changed (part cs start length)
  | "truncate", [.int n] => changed (cs.take n.toNat)
  | "replace", [a, b] =>
    match needle? a, needle? b with
    | some old, some new => changed (if old.isEmpty then cs else Text.replaceAll old new cs)
    | _, _ => .unknown
  | "remove", [a] =>
    match needle? a with
    | some old => changed (if old.isEmpty then cs else Text.replaceAll old [] cs)
    | none => .unknown
  | "append", [v] => .change (.text (s ++ v.display))
  | "pad", [.int n, .char c] => changed (cs ++ List.replicate (n.toNat - cs.length) c)
  | "pad", [.int n, .text t] =>
    let width := t.toList.length
    -- The last copy is put in whole, so the text can become longer than was asked for.
    let times := if width = 0 then 0 else (n.toNat - cs.length + width - 1) / width
    changed (cs ++ (List.replicate times t.toList).flatten)
  | "pop", [] =>
    match cs.getLast? with
    | some c => .done (.char c) (some (.text (.ofList cs.dropLast)))
    | none => .value .unit
  | "to_chars", [] | "chars", [] => .value (.array (cs.map .char))
  | "get", [.int i] => .value ((itemOf (.text s) (.int i)).getD .unit)
  | _, _ => .unknown

/-- Functions on arrays. -/
def onArray (f : String) (items : List Value) (arguments : List Value) : Called :=
  let changed (items : List Value) : Called := .change (.array items)
  match f, arguments with
  | "len", [] => .value (.int items.length)
  | "is_empty", [] => .value (.bool items.isEmpty)
  | "push", [v] => changed (items ++ [v])
  | "append", [.array more] => changed (items ++ more)
  | "pop", [] => .done (items.getLast?.getD .unit) (some (.array items.dropLast))
  | "shift", [] => .done (items.head?.getD .unit) (some (.array (items.drop 1)))
  | "insert", [.int i, v] =>
    let n := (if i < 0 then i + items.length else i).toNat
    changed (items.take n ++ v :: items.drop n)
  | "remove", [.int i] =>
    match position? items.length i with
    | some n => .done (items.getD n .unit) (some (.array (items.eraseIdx n)))
    | none => .value .unit
  | "reverse", [] => changed items.reverse
  | "clear", [] => changed []
  | "truncate", [.int n] => changed (items.take n.toNat)
  | "chop", [.int n] => changed (items.drop (items.length - n.toNat))
  | "pad", [.int n, v] => changed (items ++ List.replicate (n.toNat - items.length) v)
  | "contains", [v] => .value (.bool (items.any v.same))
  | "index_of", [v] =>
    .value (match items.findIdx? v.same with
      | some n => .int n
      | none => .int (-1))
  | "extract", [.int start] => .value (.array (part items start items.length))
  | "extract", [.int start, .int length] => .value (.array (part items start length))
  | "get", [.int i] => .value ((itemOf (.array items) (.int i)).getD .unit)
  | "set", [.int i, v] =>
    match withItem (.array items) (.int i) v with
    | some a => .change a
    | none => .value .unit
  | "sort", [] =>
    let le (a b : Value) : Bool :=
      match Operator.lessEqual.apply a b with
      | some (.bool true) => true
      | _ => false
    changed (items.mergeSort le)
  | "dedup", [] =>
    changed (items.foldl (fun kept v => if (kept.getLast?).any v.same then kept else kept ++ [v]) [])
  | _, _ => .unknown

/-- Functions on maps. -/
def onMap (f : String) (entries : List (String × Value)) (arguments : List Value) : Called :=
  match f, arguments with
  | "len", [] => .value (.int entries.length)
  | "is_empty", [] => .value (.bool entries.isEmpty)
  | "keys", [] => .value (.array (entries.map fun e => .text e.1))
  | "values", [] => .value (.array (entries.map (·.2)))
  | "contains", [.text key] => .value (.bool (entries.any (·.1 == key)))
  | "get", [.text key] => .value ((entries.lookup key).getD .unit)
  | "set", [.text key, v] => .change (.map (putEntry key v entries))
  | "remove", [.text key] =>
    .done ((entries.lookup key).getD .unit) (some (.map (entries.filter (·.1 != key))))
  | "clear", [] => .change (.map [])
  | "mixin", [.map more] => .change (.map (more.foldl (fun es (k, v) => putEntry k v es) entries))
  | _, _ => .unknown

/-- Calls a function of the library. -/
def callLibrary (f : String) (arguments : List Value) : Called :=
  match f, arguments with
  | "print", [_] | "debug", [_] => .value .unit
  | "to_string", [v] => .value (.text v.display)
  | "to_debug", [v] => .value (.text v.debug)
  | "type_of", [v] => .value (.text v.typeName)
  | "Fn", [.text name] => .value (.closure name [] [])
  | "curry", .closure name captured bound :: more => .value (.closure name captured (bound ++ more))
  | "name", [.closure name _ _] => .value (.text name)
  | "len", [.range a b inclusive] => .value (.int (Value.rangeLength a b inclusive))
  | "contains", [.range a b inclusive, v] => .ofResult (isIn v (.range a b inclusive))
  | "to_upper", [.char c] => .value (.text (Text.upper (.ofList [c])))
  | "to_lower", [.char c] => .value (.text (Text.lower (.ofList [c])))
  | "to_int", [.char c] => .value (.int c.toNat)
  | f, .text s :: rest => onText f s rest
  | f, .array items :: rest => onArray f items rest
  | f, .map entries :: rest => onMap f entries rest
  | f, arguments => onNumber f arguments

/-- The functions of one argument that can also be written as properties. -/
def propertyNames : List String :=
  ["len", "is_empty", "bytes", "chars", "is_odd", "is_even", "is_zero", "floor", "ceiling", "round",
    "int", "name", "fraction", "is_nan", "is_finite", "is_infinite"]

end Stencil.Sandbox
