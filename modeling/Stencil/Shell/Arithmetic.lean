import Stencil.Shell.Reader

/-!
# Arithmetic of the shell

Expressions over whole numbers of 64 bits that wrap around.
-/

namespace Stencil.Shell.Arithmetic

/-- An expression. -/
inductive Expr where
  /-- A number. -/
  | number (n : Int)
  /-- A variable. -/
  | variable_ (name : List Char)
  /-- An operator before its operand. -/
  | unary (op : List Char) (e : Expr)
  /-- An operator between its operands. -/
  | binary (op : List Char) (a b : Expr)
  /-- A choice. -/
  | choice (condition yes no : Expr)
  /-- An assignment, after an operator if there is one. -/
  | assign (name : List Char) (op : List Char) (e : Expr)
  deriving Repr, Inhabited

/-- Why an expression has no value. -/
inductive Fault where
  /-- A value is missing. -/
  | expectingPrimary
  /-- Something follows the expression. -/
  | expectingEnd
  /-- A parenthesis is missing. -/
  | expectingParenthesis
  /-- A divisor is zero. -/
  | divisionByZero
  /-- A variable is no number. -/
  | illegalNumber (text : List Char)
  deriving Repr

/-- The operators between operands with their strengths, longer ones first. -/
def binaryOperators : List (List Char × Nat) :=
  [("||", 1), ("&&", 2), ("==", 6), ("!=", 6), ("<=", 7), (">=", 7), ("<<", 8), (">>", 8), ("|", 3),
    ("^", 4), ("&", 5), ("<", 7), (">", 7), ("+", 9), ("-", 9), ("*", 10), ("/", 10), ("%", 10)].map
    fun (op, strength) => (op.toList, strength)

/-- Drops blanks. -/
def blanks (cs : List Char) : List Char := cs.dropWhile fun c => c == ' ' || c == '\t' || c == '\n'

/-- The value of a digit in some base up to 36. -/
def digitValue (c : Char) : Nat :=
  if c.isDigit then c.toNat - 48 else if c.isLower then c.toNat - 87 else c.toNat - 55

/-- The number that digits stand for. -/
def ofDigits (base : Nat) (cs : List Char) : Int :=
  Int.ofNat (cs.foldl (fun n c => n * base + digitValue c) 0)

/-- The operators that no assignment goes with. -/
def comparisons : List String := ["<=", ">=", "==", "!=", "<", ">"]

/-- The operator that comes next and is not one of an assignment. -/
def operator? (cs : List Char) : Option (List Char × Nat) :=
  binaryOperators.find? fun (op, _) =>
    op.isPrefixOf cs &&
      !((cs.drop op.length).head? == some '=' && !comparisons.contains (.ofList op))

/-- The operator of an assignment that comes next, and what follows it. -/
def assignment? (cs : List Char) : Option (List Char × List Char) :=
  match cs with
  | '=' :: '=' :: _ => none
  | '=' :: rest => some ([], rest)
  | '<' :: '<' :: '=' :: rest => some (['<', '<'], rest)
  | '>' :: '>' :: '=' :: rest => some (['>', '>'], rest)
  | c :: '=' :: rest => if "+-*/%&|^".toList.contains c then some ([c], rest) else none
  | _ => none

mutual

/-- A value, and what follows it. -/
def primary (fuel : Nat) (cs : List Char) : Except Fault (Expr × List Char) :=
  match fuel with
  | 0 => .error .expectingPrimary
  | fuel + 1 =>
    match blanks cs with
    | '(' :: rest => do
      let (e, rest) ← choice fuel rest
      match blanks rest with
      | ')' :: rest => .ok (e, rest)
      | _ => .error .expectingParenthesis
    | '0' :: 'x' :: rest | '0' :: 'X' :: rest =>
      let isHex (c : Char) : Bool := c.isDigit || ('a' ≤ c && c ≤ 'f') || ('A' ≤ c && c ≤ 'F')
      .ok (.number (ofDigits 16 (rest.takeWhile isHex)), rest.dropWhile isHex)
    | '+' :: rest => unary fuel ['+'] rest
    | '-' :: rest => unary fuel ['-'] rest
    | '!' :: rest => unary fuel ['!'] rest
    | '~' :: rest => unary fuel ['~'] rest
    | c :: rest =>
      let cs := c :: rest
      if c.isDigit then
        -- A leading zero makes the digits octal ones.
        let ds := cs.takeWhile fun d => d.isDigit && (c != '0' || d < '8')
        .ok (.number (ofDigits (if c = '0' then 8 else 10) ds), cs.drop ds.length)
      else if isNameStart c then
        let name := cs.takeWhile isNamePart
        let rest := cs.drop name.length
        match assignment? (blanks rest) with
        | some (op, rest) => do
          let (e, rest) ← choice fuel rest
          .ok (.assign name op e, rest)
        | none => .ok (.variable_ name, rest)
      else .error .expectingPrimary
    | [] => .error .expectingPrimary

/-- An operator before its operand. -/
def unary (fuel : Nat) (op : List Char) (cs : List Char) : Except Fault (Expr × List Char) :=
  match fuel with
  | 0 => .error .expectingPrimary
  | fuel + 1 => do
    let (e, rest) ← primary fuel cs
    .ok (.unary op e, rest)

/-- Operators of at least some strength after a left operand. -/
def climb (fuel : Nat) (least : Nat) (left : Expr) (cs : List Char) :
    Except Fault (Expr × List Char) :=
  match fuel with
  | 0 => .error .expectingPrimary
  | fuel + 1 =>
    let cs := blanks cs
    match operator? cs with
    | some (op, strength) =>
      if least ≤ strength then do
        let (first, rest) ← primary fuel (cs.drop op.length)
        -- Only stronger operators join the right operand, so those of one strength group to the left.
        let (right, rest) ← climb fuel (strength + 1) first rest
        climb fuel least (.binary op left right) rest
      else .ok (left, cs)
    | none => .ok (left, cs)

/-- An expression, and what follows it. -/
def choice (fuel : Nat) (cs : List Char) : Except Fault (Expr × List Char) :=
  match fuel with
  | 0 => .error .expectingPrimary
  | fuel + 1 => do
    let (first, rest) ← primary fuel cs
    let (e, rest) ← climb fuel 1 first rest
    match blanks rest with
    | '?' :: rest => do
      let (yes, rest) ← choice fuel rest
      match blanks rest with
      | ':' :: rest => do
        let (no, rest) ← choice fuel rest
        .ok (.choice e yes no, rest)
      | _ => .error .expectingPrimary
    | rest => .ok (e, rest)

end

/-- The expression of a text; a blank one is zero. -/
def read (cs : List Char) : Except Fault Expr :=
  if (blanks cs).isEmpty then .ok (.number 0)
  else do
    let (e, rest) ← choice (2 * cs.length + 10) cs
    if (blanks rest).isEmpty then .ok e else .error .expectingEnd

/-- A number brought into 64 bits. -/
def wrap (n : Int) : Int := Int.bmod n (Nat.pow 2 64)

/-- One for true, zero for false. -/
def truth (b : Bool) : Int := if b then 1 else 0

/-- Bits of two numbers combined. -/
def onBits (f : UInt64 → UInt64 → UInt64) (a b : Int) : Int :=
  let word (n : Int) : UInt64 := (n % Int.pow 2 64).toNat.toUInt64
  wrap (Int.ofNat (f (word a) (word b)).toNat)

/-- The value of an operator on two numbers. -/
def apply (op : List Char) (a b : Int) : Except Fault Int :=
  match op with
  | ['+'] => .ok (wrap (a + b))
  | ['-'] => .ok (wrap (a - b))
  | ['*'] => .ok (wrap (a * b))
  | ['/'] => if b = 0 then .error .divisionByZero else .ok (wrap (a.tdiv b))
  | ['%'] => if b = 0 then .error .divisionByZero else .ok (wrap (a.tmod b))
  | ['<'] => .ok (truth (a < b))
  | ['>'] => .ok (truth (b < a))
  | ['<', '='] => .ok (truth (a ≤ b))
  | ['>', '='] => .ok (truth (b ≤ a))
  | ['=', '='] => .ok (truth (a == b))
  | ['!', '='] => .ok (truth (a != b))
  | ['&'] => .ok (onBits (· &&& ·) a b)
  | ['|'] => .ok (onBits (· ||| ·) a b)
  | ['^'] => .ok (onBits (· ^^^ ·) a b)
  -- The distance of a shift counts modulo the number of bits.
  | ['<', '<'] => .ok (wrap (a * Int.pow 2 (b % 64).toNat))
  | ['>', '>'] => .ok (a / Int.pow 2 (b % 64).toNat)
  | _ => .error .expectingEnd

/-- What an expression reads and writes. -/
structure Variables (σ : Type) where
  /-- The text of a variable. -/
  look : σ → List Char → List Char
  /-- Sets a variable. -/
  put : σ → List Char → List Char → σ

/-- The number a text stands for; nothing is zero. -/
def numberOf (cs : List Char) : Except Fault Int :=
  let trimmed := blanks cs
  let (negative, ds) := match trimmed with
    | '-' :: ds => (true, ds)
    | '+' :: ds => (false, ds)
    | ds => (false, ds)
  if trimmed.isEmpty then .ok 0
  else if !ds.isEmpty && ds.all Char.isDigit then
    let n := ofDigits (if ds.head? == some '0' then 8 else 10) ds
    .ok (wrap (if negative then -n else n))
  else .error (.illegalNumber cs)

/-- The value of an expression, and the variables after it. -/
def eval {σ : Type} (vs : Variables σ) (s : σ) : Expr → Except Fault (Int × σ)
  | .number n => .ok (wrap n, s)
  | .variable_ name => do .ok (← numberOf (vs.look s name), s)
  | .unary op e => do
    let (n, s) ← eval vs s e
    match op with
    | ['-'] => .ok (wrap (-n), s)
    | ['!'] => .ok (truth (n == 0), s)
    | ['~'] => .ok (wrap (-n - 1), s)
    | _ => .ok (n, s)
  | .binary op a b => do
    let (x, s) ← eval vs s a
    -- The right operand of these two is evaluated only if the left one does not decide.
    if op = ['&', '&'] && x == 0 then .ok (0, s)
    else if op = ['|', '|'] && x != 0 then .ok (1, s)
    else do
      let (y, s) ← eval vs s b
      if op = ['&', '&'] || op = ['|', '|'] then .ok (truth (y != 0), s)
      else do .ok (← apply op x y, s)
  | .choice condition yes no => do
    let (n, s) ← eval vs s condition
    if n != 0 then eval vs s yes else eval vs s no
  | .assign name op e => do
    let (y, s) ← eval vs s e
    let value ← if op.isEmpty then .ok y else do apply op (← numberOf (vs.look s name)) y
    .ok (value, vs.put s name (toString value).toList)

/-- What is said about a fault in an expression. -/
def Fault.message (expression : List Char) : Fault → String
  | .expectingPrimary =>
    "arithmetic expression: expecting primary: \"" ++ .ofList expression ++ "\""
  | .expectingEnd => "arithmetic expression: expecting EOF: \"" ++ .ofList expression ++ "\""
  | .expectingParenthesis => "arithmetic expression: expecting ')': \"" ++ .ofList expression ++ "\""
  | .divisionByZero => "arithmetic expression: division by zero: \"" ++ .ofList expression ++ "\""
  | .illegalNumber text => "Illegal number: " ++ .ofList text

end Stencil.Shell.Arithmetic
