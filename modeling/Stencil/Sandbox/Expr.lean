import Stencil.Sandbox.Value

/-!
# Sandboxed scripts

A script is expressions; statements are expressions too, most of them without value.
-/

namespace Stencil.Sandbox

/-- An operator between two values. -/
inductive Operator where
  | add | subtract | multiply | divide | remainder | power | shiftLeft | shiftRight
  | bitAnd | bitOr | bitXor | equal | notEqual | less | lessEqual | greater | greaterEqual
  deriving DecidableEq, Repr

/-- An expression. -/
inductive Expr where
  /-- A value. -/
  | value (v : Value)
  /-- A text with expressions in it. -/
  | template (parts : List Expr)
  /-- A variable. -/
  | name (x : String)
  /-- An array. -/
  | array (items : List Expr)
  /-- A map. -/
  | map (entries : List (String × Expr))
  /-- An item of an array, a character of a text, an entry of a map. -/
  | index (e i : Expr)
  /-- A property. -/
  | property (e : Expr) (x : String)
  /-- A call of a function. -/
  | call (f : String) (arguments : List Expr)
  /-- A call of a function on its first argument, which it may change. -/
  | method (e : Expr) (f : String) (arguments : List Expr)
  /-- The opposite of a number. -/
  | negate (e : Expr)
  /-- The same number. -/
  | plus (e : Expr)
  /-- The opposite of a truth value. -/
  | not (e : Expr)
  /-- An operator between two expressions. -/
  | binary (op : Operator) (a b : Expr)
  /-- The second only if the first is true. -/
  | and (a b : Expr)
  /-- The second only if the first is false. -/
  | or (a b : Expr)
  /-- The second only if the first has no value. -/
  | orElse (a b : Expr)
  /-- Whether one is in the other. -/
  | isIn (a b : Expr)
  /-- A range. -/
  | range (a b : Expr) (inclusive : Bool)
  /-- An assignment, after an operator if there is one. -/
  | assign (op : Option Operator) (target e : Expr)
  /-- A function with the variables of the scope it stands in. -/
  | closure (f : String) (captured : List String)
  /-- A new variable. -/
  | declare (x : String) (constant : Bool) (e : Expr)
  /-- Expressions in a scope of their own. -/
  | block (body : List Expr)
  /-- A choice. -/
  | choice (condition yes no : Expr)
  /-- A choice by value. -/
  | switch (e : Expr) (cases : List (List Expr × Option Expr × Expr)) (otherwise : Option Expr)
  /-- A loop before or after whose rounds a condition is looked at, which ends it when it is not as
  expected. -/
  | loop (before : Option Expr) (body : Expr) (after : Option (Expr × Bool))
  /-- A loop over the items of something, which may also be counted. -/
  | each (x : String) (counter : Option String) (e body : Expr)
  /-- The end of a loop, with its value. -/
  | leave (e : Option Expr)
  /-- The end of a round. -/
  | again
  /-- The end of a function, with its value. -/
  | back (e : Option Expr)
  /-- A failure. -/
  | throw (e : Option Expr)
  /-- Expressions with others for when they fail. -/
  | attempt (body : Expr) (x : Option String) (handler : Expr)

instance : Inhabited Expr := ⟨.value .unit⟩

/-- A function. -/
structure Function where
  /-- Its name. -/
  name : String
  /-- Its parameters. -/
  parameters : List String
  /-- Its body. -/
  body : Expr

/-- A script. -/
structure Script where
  /-- Its functions. -/
  functions : List Function
  /-- Its expressions. -/
  body : List Expr

end Stencil.Sandbox
