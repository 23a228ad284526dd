import Stencil.Sandbox.Library
import Stencil.Store.Backend

/-!
# The state of a running script

A script runs on a state of its host, which it sees only through the functions the host offers.  Its
variables are a stack of bindings; a variable that a function without a name uses lies in a cell, so
that both see its changes.

A script has a number of operations, an amount of work, and a depth of calls it may not exceed.
-/

namespace Stencil.Sandbox

/-! ## Limits -/

/-- What bounds a script. -/
structure Limits where
  /-- The number of operations, if there is a limit. -/
  operations : Option Nat
  /-- The amount of work, after which the time is up. -/
  work : Nat
  /-- The depth of calls. -/
  depth : Nat
  /-- The length of a text, in bytes. -/
  textLength : Nat

/-- The work that takes about a millisecond. -/
def workPerMillisecond : Nat := 2500

/-! ## Ends and failures -/

/-- Why an expression has no value. -/
inductive Stop where
  /-- It fails, with a value for whoever handles that. -/
  | failed (v : Value)
  /-- It fails, and nothing can handle that. -/
  | fatal
  /-- The time is up. -/
  | timeout
  /-- It ends a loop. -/
  | leave (v : Value)
  /-- It ends a round. -/
  | again
  /-- It ends a function. -/
  | back (v : Value)
  deriving Inhabited

/-! ## Variables -/

/-- A variable. -/
structure Binding where
  /-- Its name. -/
  name : String
  /-- Its value, if it does not lie in a cell. -/
  value : Value
  /-- The cell it lies in. -/
  cell : Option Nat
  /-- Whether it cannot be changed. -/
  constant : Bool

/-- A script under way. -/
structure Running (σ : Type) where
  /-- The state of the host. -/
  world : σ
  /-- The variables, the innermost first. -/
  scope : List Binding
  /-- The cells. -/
  cells : Array Value
  /-- The operations so far. -/
  operations : Nat
  /-- The work so far. -/
  work : Nat
  /-- The number of calls that are open. -/
  depth : Nat

/-- What an expression does. -/
abbrev Run (σ α : Type) := Action Stop (Running σ) α

/-- The functions a host offers: for a name and arguments, if there is one for such arguments, its
result, what becomes of the host, and the work that takes. -/
abbrev Offer (σ : Type) := String → List Value → Option (σ → Value × σ × Nat)

/-- A program: the functions of a script, those of its host, and its limits. -/
structure Program (σ : Type) where
  /-- The functions of the script. -/
  functions : List Function
  /-- The functions of the host. -/
  offer : Offer σ
  /-- The limits. -/
  limits : Limits

variable {σ : Type}

namespace Run

/-- Fails without a value. -/
def fail {α : Type} : Run σ α := throw (.failed .unit)

/-- A result, or a failure. -/
def ofResult {α : Type} : Option α → Run σ α
  | some a => pure a
  | none => fail

end Run

namespace Program

/-- Does some work. -/
def labour (p : Program σ) (amount : Nat) : Run σ Unit := do
  modify fun r => { r with work := r.work + amount }
  if p.limits.work < (← get).work then throw .timeout

/-- Counts an operation. -/
def tick (p : Program σ) : Run σ Unit := do
  modify fun r => { r with operations := r.operations + 1 }
  if p.limits.operations.any (· < (← get).operations) then throw .fatal
  p.labour 1

/-- The size of a value, for the work it takes to handle it. -/
def sizeOf : Value → Nat
  | .text s => s.utf8ByteSize / 64
  | .array items => items.length / 8
  | .map entries => entries.length
  | _ => 0

/-- A value that keeps the limit on texts. -/
def within (p : Program σ) (v : Value) : Run σ Value := do
  match v with
  | .text s => if p.limits.textLength < s.utf8ByteSize then throw .fatal
  | _ => pure ()
  p.labour (sizeOf v)
  return v

/-- A result that keeps the limit on texts, or a failure. -/
def ofResult (p : Program σ) (r : Result) : Run σ Value := do p.within (← Run.ofResult r)

end Program

/-! ## Scopes -/

namespace Scope

/-- The value of a variable. -/
def read (x : String) : Run σ Value := do
  let r ← get
  match r.scope.find? (·.name == x) with
  | none => Run.fail
  | some b =>
    match b.cell with
    | none => return b.value
    | some cell => return r.cells.getD cell .unit

/-- The bindings with the first of a name changed. -/
def change (f : Binding → Binding) (x : String) : List Binding → List Binding
  | [] => []
  | b :: rest => if b.name == x then f b :: rest else b :: change f x rest

/-- Changes a variable. -/
def write (x : String) (v : Value) : Run σ Unit := do
  match (← get).scope.find? (·.name == x) with
  | none => Run.fail
  | some b =>
    if b.constant then Run.fail
    else match b.cell with
      | none => modify fun r => { r with scope := change (fun b => { b with value := v }) x r.scope }
      | some cell => modify fun r => { r with cells := r.cells.setIfInBounds cell v }

/-- Adds a variable. -/
def declare (x : String) (v : Value) (constant : Bool) : Run σ Unit :=
  modify fun r => { r with scope := ⟨x, v, none, constant⟩ :: r.scope }

/-- Moves a variable into a cell, if there is one of the name, and gives its cell. -/
def share (x : String) : Run σ (Option Nat) := do
  let r ← get
  match r.scope.find? (·.name == x) with
  | none => return none
  | some b =>
    match b.cell with
    | some cell => return some cell
    | none => do
      let cell := r.cells.size
      set { r with
        cells := r.cells.push b.value
        scope := change (fun b => { b with cell := some cell }) x r.scope }
      return some cell

/-- Drops the variables above a height. -/
def dropTo (height : Nat) : Run σ Unit :=
  modify fun r => { r with scope := r.scope.drop (r.scope.length - height) }

/-- Runs an action whose variables are dropped when it comes to its end. -/
def nested {α : Type} (act : Run σ α) : Run σ α := do
  -- When the action stops short, whoever settles that drops them.
  let height := (← get).scope.length
  let a ← act
  dropTo height
  return a

/-- Runs an action and says how it ended, with the variables of before. -/
def settled {α : Type} (act : Run σ α) : Run σ (Except Stop α) := fun r =>
  let height := r.scope.length
  let restore (r : Running σ) : Running σ :=
    { r with scope := r.scope.drop (r.scope.length - height) }
  match act r with
  | .ok a r => .ok (.ok a) (restore r)
  | .error e r => .ok (.error e) (restore r)

end Scope

end Stencil.Sandbox
