import Stencil.Sandbox.Expr
import Stencil.Sandbox.Lexeme

/-!
# Reading sandboxed scripts

Statements are separated by semicolons, which can be left out after those that end in a block.
Operators bind by their strength, those of one strength from the left, but powers from the right.
The fuel bounds the depth of nesting.
-/

namespace Stencil.Sandbox

/-- What is left to read, and the functions read so far. -/
structure Reader where
  /-- The lexemes that are left. -/
  rest : List Lexeme
  /-- The functions. -/
  functions : List Function

/-- A reader that may fail. -/
abbrev Parsing := StateT Reader Option

namespace Parsing

/-- The lexeme that comes next. -/
def peek : Parsing (Option Lexeme) := do return (← get).rest.head?

/-- Drops a lexeme. -/
def skip : Parsing Unit := modify fun r => { r with rest := r.rest.drop 1 }

/-- Whether a symbol comes next; if so, it is taken. -/
def accept (s : String) : Parsing Bool := do
  match ← peek with
  | some (.symbol t) =>
    if s == t then do
      skip
      return true
    else return false
  | _ => return false

/-- Takes a symbol. -/
def expect (s : String) : Parsing Unit := do
  if !(← accept s) then failure

/-- Whether a word comes next; if so, it is taken. -/
def acceptWord (s : String) : Parsing Bool := do
  match ← peek with
  | some (.word t) =>
    if s == t then do
      skip
      return true
    else return false
  | _ => return false

/-- The words that are no names. -/
def reserved : List String :=
  ["let", "const", "fn", "if", "else", "switch", "while", "loop", "do", "until", "for", "in", "break",
    "continue", "return", "throw", "try", "catch", "true", "false", "eval", "null", "nil", "var",
    "static", "is", "goto", "match", "case", "public", "protected", "new", "use", "with", "module",
    "package", "super", "spawn", "thread", "go", "sync", "async", "await", "yield", "default", "void",
    "exit", "begin", "end", "private", "import", "export", "as", "global"]

/-- A name. -/
def takeName : Parsing String := do
  match ← peek with
  | some (.word w) =>
    if reserved.contains w then failure
    else do
      skip
      return w
  | _ => failure

/-- Adds a function. -/
def addFunction (f : Function) : Parsing Unit :=
  modify fun r => { r with functions := f :: r.functions }

end Parsing

open Parsing

/-- The operators between values and their strengths. -/
def operators : List (String × Operator × Nat) :=
  [("|", .bitOr, 30), ("^", .bitXor, 30), ("&", .bitAnd, 60), ("==", .equal, 90), ("!=", .notEqual, 90),
    ("<", .less, 130), ("<=", .lessEqual, 130), (">", .greater, 130), (">=", .greaterEqual, 130),
    ("+", .add, 150), ("-", .subtract, 150), ("*", .multiply, 180), ("/", .divide, 180),
    ("%", .remainder, 180), ("**", .power, 190), ("<<", .shiftLeft, 210), (">>", .shiftRight, 210)]

/-- How a symbol joins two expressions, with its strength. -/
def joiner? (s : String) : Option (Nat × (Expr → Expr → Expr)) :=
  match s with
  | "||" => some (30, .or)
  | "&&" => some (60, .and)
  | "??" => some (135, .orElse)
  | ".." => some (140, fun a b => .range a b false)
  | "..=" => some (140, fun a b => .range a b true)
  | _ => (operators.lookup s).map fun (op, strength) => (strength, .binary op)

/-- The operator of an assignment. -/
def assignment? (s : String) : Option (Option Operator) :=
  match s with
  | "=" => some none
  | "+=" => some (some .add)
  | "-=" => some (some .subtract)
  | "*=" => some (some .multiply)
  | "/=" => some (some .divide)
  | "%=" => some (some .remainder)
  | "**=" => some (some .power)
  | "<<=" => some (some .shiftLeft)
  | ">>=" => some (some .shiftRight)
  | "&=" => some (some .bitAnd)
  | "|=" => some (some .bitOr)
  | "^=" => some (some .bitXor)
  | _ => none

/-- Whether an expression can be assigned to. -/
def Expr.isPlace : Expr → Bool
  | name _ | index _ _ | property _ _ => true
  | _ => false

mutual

/-- Expressions between commas up to a closing symbol, which is taken. -/
def items (fuel : Nat) (closing : String) (acc : List Expr) : Parsing (List Expr) :=
  match fuel with
  | 0 => failure
  | fuel + 1 => do
    if ← accept closing then return acc.reverse
    else do
      let e ← expression fuel 0
      if ← accept "," then items fuel closing (e :: acc)
      else do
        expect closing
        return (e :: acc).reverse

/-- The entries of a map up to its closing brace, which is taken. -/
def entries (fuel : Nat) (acc : List (String × Expr)) : Parsing (List (String × Expr)) :=
  match fuel with
  | 0 => failure
  | fuel + 1 => do
    if ← accept "\x7d" then return acc.reverse
    else do
      let key ← match ← peek with
        | some (.text s) => do
          skip
          pure s
        | some (.word w) => do
          skip
          pure w
        | _ => failure
      expect ":"
      let e ← expression fuel 0
      if ← accept "," then entries fuel ((key, e) :: acc)
      else do
        expect "\x7d"
        return ((key, e) :: acc).reverse

/-- The parts of a template text. -/
def templateParts (fuel : Nat) (parts : List Lexeme) : Parsing (List Expr) :=
  match fuel with
  | 0 => failure
  | fuel + 1 =>
    match parts with
    | [] => return []
    | .text s :: rest => do return .value (.text s) :: (← templateParts fuel rest)
    | .nested inside :: rest => do
      let after := (← get).rest
      modify fun r => { r with rest := inside }
      let body ← statements fuel []
      if !(← get).rest.isEmpty then failure
      modify fun r => { r with rest := after }
      return .block body :: (← templateParts fuel rest)
    | _ :: _ => failure

/-- Parameters up to a closing symbol, which is taken. -/
def parameters (fuel : Nat) (closing : String) (acc : List String) : Parsing (List String) :=
  match fuel with
  | 0 => failure
  | fuel + 1 => do
    if ← accept closing then return acc.reverse
    else do
      let x ← takeName
      if ← accept "," then parameters fuel closing (x :: acc)
      else do
        expect closing
        return (x :: acc).reverse

/-- A function without a name, after its parameters. -/
def anonymous (fuel : Nat) (xs : List String) : Parsing Expr :=
  match fuel with
  | 0 => failure
  | fuel + 1 => do
    let before := (← get).rest
    let body ← statement fuel
    -- Every other word of the body may be a variable outside of it, so all of them are captured.
    let used := (before.take (before.length - (← get).rest.length)).filterMap fun
      | .word w => if reserved.contains w || xs.contains w then none else some w
      | _ => none
    let captured := used.eraseDups
    let f := "anon$" ++ toString (← get).functions.length
    addFunction ⟨f, xs, body⟩
    return .closure f captured

/-- An expression without operators around it. -/
def primary (fuel : Nat) : Parsing Expr :=
  match fuel with
  | 0 => failure
  | fuel + 1 => do
    match ← peek with
    | none => failure
    | some (.int n) => do
      skip
      return .value (.int n)
    | some (.float x) => do
      skip
      return .value (.float x)
    | some (.char c) => do
      skip
      return .value (.char c)
    | some (.text s) => do
      skip
      return .value (.text s)
    | some (.template parts) => do
      skip
      return .template (← templateParts fuel parts)
    | some (.nested _) => failure
    | some (.symbol "(") => do
      skip
      if ← accept ")" then return .value .unit
      let e ← expression fuel 0
      expect ")"
      return e
    | some (.symbol "[") => do
      skip
      return .array (← items fuel "]" [])
    | some (.symbol "#\x7b") => do
      skip
      return .map (← entries fuel [])
    | some (.symbol "\x7b") => block fuel
    | some (.symbol "|") => do
      skip
      anonymous fuel (← parameters fuel "|" [])
    | some (.symbol "||") => do
      skip
      anonymous fuel []
    | some (.symbol _) => failure
    | some (.word "true") => do
      skip
      return .value (.bool true)
    | some (.word "false") => do
      skip
      return .value (.bool false)
    | some (.word "if") => ifExpression fuel
    | some (.word "switch") => switchExpression fuel
    | some (.word "while") | some (.word "loop") | some (.word "do") | some (.word "for") =>
      statement fuel
    | some (.word _) => do
      let x ← takeName
      if ← accept "(" then return .call x (← items fuel ")" []) else return .name x

/-- What follows an expression: items, properties and calls. -/
def suffixes (fuel : Nat) (e : Expr) : Parsing Expr :=
  match fuel with
  | 0 => failure
  | fuel + 1 => do
    if ← accept "[" then do
      let i ← expression fuel 0
      expect "]"
      suffixes fuel (.index e i)
    else if ← accept "." then do
      match ← peek with
      | some (.word x) => do
        skip
        if ← accept "(" then suffixes fuel (.method e x (← items fuel ")" []))
        else suffixes fuel (.property e x)
      | _ => failure
    else return e

/-- An expression with signs before it. -/
def signed (fuel : Nat) : Parsing Expr :=
  match fuel with
  | 0 => failure
  | fuel + 1 => do
    if ← accept "-" then do
      -- A sign in front of a number makes another number.
      match ← signed fuel with
      | .value (.int n) => return .value (.int (-n))
      | .value (.float x) => return .value (.float (-x))
      | e => return .negate e
    else if ← accept "+" then return .plus (← signed fuel)
    else if ← accept "!" then return .not (← signed fuel)
    else do suffixes fuel (← primary fuel)

/-- An expression whose operators have more than some strength. -/
def expression (fuel : Nat) (least : Nat) : Parsing Expr :=
  match fuel with
  | 0 => failure
  | fuel + 1 => do climb fuel least (← signed fuel)

/-- Operators of more than some strength after an expression. -/
def climb (fuel : Nat) (least : Nat) (left : Expr) : Parsing Expr :=
  match fuel with
  | 0 => failure
  | fuel + 1 => do
    match ← peek with
    | some (.symbol s) =>
      match joiner? s with
      | some (strength, join) =>
        if least < strength then do
          skip
          -- powers are joined from the right
          let right ← expression fuel (if s == "**" then strength - 1 else strength)
          climb fuel least (join left right)
        else return left
      | none => return left
    | some (.word "in") =>
      if least < 110 then do
        skip
        let right ← expression fuel 110
        climb fuel least (.isIn left right)
      else return left
    | _ => return left

/-- Expressions in braces. -/
def block (fuel : Nat) : Parsing Expr :=
  match fuel with
  | 0 => failure
  | fuel + 1 => do
    expect "\x7b"
    let body ← statements fuel []
    expect "\x7d"
    return .block body

/-- A choice. -/
def ifExpression (fuel : Nat) : Parsing Expr :=
  match fuel with
  | 0 => failure
  | fuel + 1 => do
    if !(← acceptWord "if") then failure
    let condition ← expression fuel 0
    let yes ← block fuel
    if ← acceptWord "else" then do
      match ← peek with
      | some (.word "if") => return .choice condition yes (← ifExpression fuel)
      | _ => return .choice condition yes (← block fuel)
    else return .choice condition yes (.value .unit)

/-- The values of a case, between bars. -/
def caseValues (fuel : Nat) (acc : List Expr) : Parsing (List Expr) :=
  match fuel with
  | 0 => failure
  | fuel + 1 => do
    -- Bars separate the values here, so they do not join them.
    let e ← expression fuel 30
    if ← accept "|" then caseValues fuel (e :: acc) else return (e :: acc).reverse

/-- The cases of a choice by value, up to the closing brace, which is taken. -/
def casesOf (fuel : Nat) (acc : List (List Expr × Option Expr × Expr)) (otherwise : Option Expr) :
    Parsing (List (List Expr × Option Expr × Expr) × Option Expr) :=
  match fuel with
  | 0 => failure
  | fuel + 1 => do
    if ← accept "\x7d" then return (acc.reverse, otherwise)
    else do
      let isRest ← acceptWord "_"
      let values ← if isRest then pure [] else caseValues fuel []
      let guard ← if ← acceptWord "if" then do pure (some (← expression fuel 0)) else pure none
      if isRest && guard.isSome then failure
      expect "=>"
      let result ← statement fuel
      let _ ← accept ","
      if isRest then casesOf fuel acc (some result)
      else casesOf fuel ((values, guard, result) :: acc) otherwise

/-- A choice by value. -/
def switchExpression (fuel : Nat) : Parsing Expr :=
  match fuel with
  | 0 => failure
  | fuel + 1 => do
    if !(← acceptWord "switch") then failure
    let e ← expression fuel 0
    expect "\x7b"
    let (cases, otherwise) ← casesOf fuel [] none
    return .switch e cases otherwise

/-- An expression, unless the statement ends here. -/
def optionalExpression (fuel : Nat) : Parsing (Option Expr) :=
  match fuel with
  | 0 => failure
  | fuel + 1 => do
    match ← peek with
    | none | some (.symbol ";") | some (.symbol "\x7d") | some (.symbol ",") => return none
    | _ => return some (← expression fuel 0)

/-- A statement. -/
def statement (fuel : Nat) : Parsing Expr :=
  match fuel with
  | 0 => failure
  | fuel + 1 => do
    match ← peek with
    | some (.word "let") | some (.word "const") => do
      let constant := !(← acceptWord "let")
      if constant then skip
      let x ← takeName
      if ← accept "=" then return .declare x constant (← expression fuel 0)
      else return .declare x constant (.value .unit)
    | some (.word "fn") => do
      skip
      let f ← takeName
      expect "("
      let xs ← parameters fuel ")" []
      let body ← block fuel
      addFunction ⟨f, xs, body⟩
      return .value .unit
    | some (.word "return") => do
      skip
      return .back (← optionalExpression fuel)
    | some (.word "throw") => do
      skip
      return .throw (← optionalExpression fuel)
    | some (.word "break") => do
      skip
      return .leave (← optionalExpression fuel)
    | some (.word "continue") => do
      skip
      return .again
    | some (.word "while") => do
      skip
      let condition ← expression fuel 0
      return .loop (some condition) (← block fuel) none
    | some (.word "loop") => do
      skip
      return .loop none (← block fuel) none
    | some (.word "do") => do
      skip
      let body ← block fuel
      let expected := !(← acceptWord "until")
      if expected && !(← acceptWord "while") then failure
      return .loop none body (some (← expression fuel 0, expected))
    | some (.word "for") => do
      skip
      let (x, counter) ← if ← accept "(" then do
          let x ← takeName
          expect ","
          let counter ← takeName
          expect ")"
          pure (x, some counter)
        else do pure (← takeName, none)
      if !(← acceptWord "in") then failure
      let e ← expression fuel 0
      return .each x counter e (← block fuel)
    | some (.word "try") => do
      skip
      let body ← block fuel
      if !(← acceptWord "catch") then failure
      let x ← if ← accept "(" then do
          let x ← takeName
          expect ")"
          pure (some x)
        else pure none
      return .attempt body x (← block fuel)
    | some (.word "if") => ifExpression fuel
    | some (.word "switch") => switchExpression fuel
    | some (.symbol "\x7b") => block fuel
    | _ => do
      let e ← expression fuel 0
      match ← peek with
      | some (.symbol s) =>
        match assignment? s with
        | some op =>
          if e.isPlace then do
            skip
            return .assign op e (← expression fuel 0)
          else failure
        | none => return e
      | _ => return e

/-- Statements, up to the end of their block or script. -/
def statements (fuel : Nat) (acc : List Expr) : Parsing (List Expr) :=
  match fuel with
  | 0 => failure
  | fuel + 1 => do
    match ← peek with
    | none | some (.symbol "\x7d") => return acc.reverse
    | some (.symbol ";") => do
      skip
      statements fuel acc
    | _ => do
      let isFunction := match ← peek with
        | some (.word w) => w == "fn"
        | _ => false
      let endsInBlock := match ← peek with
        | some (.word w) => ["if", "while", "for", "loop", "switch", "try", "fn", "do"].contains w
        | some (.symbol "\x7b") => true
        | _ => false
      let e ← statement fuel
      -- a function has no value, not even an absent one
      let acc := if isFunction then acc else e :: acc
      match ← peek with
      | none | some (.symbol "\x7d") => return acc.reverse
      | some (.symbol ";") => do
        skip
        statements fuel acc
      | _ => if endsInBlock then statements fuel acc else failure

end

/-- Reads a script, if it is one. -/
def Script.read? (s : String) : Option Script := do
  let lexemes ← Lexeme.read? s
  let (body, r) ← (statements (20 * s.length + 20) []).run ⟨lexemes, []⟩
  if r.rest.isEmpty then some ⟨r.functions, body⟩ else none

end Stencil.Sandbox
