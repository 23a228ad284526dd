import Stencil.Sandbox.Running
import Stencil.Sandbox.Reader

/-!
# Running sandboxed scripts

Each construct is evaluated by an evaluator for its parts; an evaluator for whole scripts ties the
knot, with a depth that no script within its limits exceeds.
-/

namespace Stencil.Sandbox

variable {σ : Type}

namespace Eval

variable (p : Program σ) (ev : Expr → Run σ Value)

/-! ## Calls -/

/-- Calls a function of the script; gives its result, and what has become of the value it was called
on. -/
def callFunction (f : Function) (captured : List (String × Nat)) (this : Option Value)
    (arguments : List Value) : Run σ (Value × Option Value) := do
  let r ← get
  if p.limits.depth < r.depth + 1 then throw .fatal
  -- The body sees the arguments, the value it is called on and what was captured, but not its caller.
  let own : List Binding := (f.parameters.zip arguments).map fun (x, v) => ⟨x, v, none, false⟩
  let self : List Binding := this.toList.map fun v => ⟨"this", v, none, false⟩
  let shared : List Binding := captured.map fun (x, cell) => ⟨x, .unit, some cell, false⟩
  set { r with scope := own.reverse ++ self ++ shared, depth := r.depth + 1 }
  let ended ← Scope.settled (ev f.body)
  let self := ((← get).scope.find? (·.name == "this")).map (·.value)
  modify fun now => { now with scope := r.scope, depth := r.depth }
  match ended with
  | .ok v | .error (.back v) => return (v, self)
  -- A loop cannot be left from within a function.
  | .error (.leave _) | .error .again => Run.fail
  | .error e => throw e

/-- Calls a function of the host or of the library; gives its result, and its first argument if that
has changed. -/
def callNative (f : String) (arguments : List Value) : Run σ (Value × Option Value) := do
  match p.offer f arguments with
  | some act => do
    let r ← get
    let (v, world, work) := act r.world
    set { r with world := world }
    p.labour work
    return (← p.within v, none)
  | none => do
    p.labour ((arguments.map Program.sizeOf).foldl (· + ·) 0)
    match callLibrary f arguments with
    | .unknown | .failed => Run.fail
    | .done v changed => do
      let v ← p.within v
      match changed with
      | some first => return (v, some (← p.within first))
      | none => return (v, none)

/-- The function of the script with a name and so many parameters. -/
def function? (f : String) (count : Nat) : Option Function :=
  p.functions.find? fun g => g.name == f && g.parameters.length == count

/-- Calls a function by its name; those of the script come first. -/
def callNamed (f : String) (arguments : List Value) : Run σ (Value × Option Value) := do
  match function? p f arguments.length with
  | some g => return ((← callFunction p ev g [] none arguments).1, none)
  | none => callNative p f arguments

/-- Calls a function that is a value. -/
def callValue (f : Value) (this : Option Value) (arguments : List Value) :
    Run σ (Value × Option Value) := do
  match f with
  | .closure name captured bound =>
    match function? p name (bound.length + arguments.length) with
    | some g => callFunction p ev g captured this (bound ++ arguments)
    | none => callNative p name (bound ++ arguments)
  | _ => Run.fail

/-- Calls a function for an item of an array: with as many of some arguments as it has parameters,
or on the first of them. -/
def callBack (f : Value) (arguments : List Value) : Run σ Value := do
  match f with
  | .closure name captured bound =>
    let known (count : Nat) : Option Function := function? p name (bound.length + count)
    let fitting := (List.range (arguments.length + 1)).reverse.findSome? fun count =>
      (known count).map fun g => (g, count)
    match fitting with
    | some (g, 0) =>
      return (← callFunction p ev g captured arguments.head? bound).1
    | some (g, count) =>
      return (← callFunction p ev g captured none (bound ++ arguments.take count)).1
    | none => return (← callNative p name (bound ++ arguments.take 1)).1
  | _ => Run.fail

/-- Whether a function holds for an item at a position. -/
def holds (f : Value) (item : Value) (position : Nat) : Run σ Bool := do
  match ← callBack p ev f [item, .int position] with
  | .bool b => return b
  | _ => return false

/-- Puts an item into a list in the order that a function tells, in front of the items of its rank. -/
def insertBy (f : Value) (item : Value) : List Value → Run σ (List Value)
  | [] => return [item]
  | first :: rest => do
    match ← callBack p ev f [item, first] with
    | .int n =>
      if n ≤ 0 then return item :: first :: rest else return first :: (← insertBy f item rest)
    | _ => return item :: first :: rest

/-- The first item that a function holds for, and its position. -/
def findItem (f : Value) : List (Value × Nat) → Run σ (Option (Value × Nat))
  | [] => return none
  | (v, i) :: rest => do if ← holds p ev f v i then return some (v, i) else findItem f rest

/-- The methods of arrays that take a function. -/
def callOnItems (items : List Value) (f : String) (arguments : List Value) :
    Option (Run σ (Value × Option Value)) :=
  let numbered := items.zipIdx
  match f, arguments with
  | "map", [.closure n c b] => some do
    let vs ← numbered.mapM fun (v, i) => callBack p ev (.closure n c b) [v, .int i]
    return (.array vs, none)
  | "filter", [.closure n c b] => some do
    let vs ← numbered.filterM fun (v, i) => holds p ev (.closure n c b) v i
    return (.array (vs.map (·.1)), none)
  | "retain", [.closure n c b] => some do
    let kept ← numbered.filterM fun (v, i) => holds p ev (.closure n c b) v i
    let dropped ← numbered.filterM fun (v, i) => do return !(← holds p ev (.closure n c b) v i)
    return (.array (dropped.map (·.1)), some (.array (kept.map (·.1))))
  | "drain", [.closure n c b] => some do
    let taken ← numbered.filterM fun (v, i) => holds p ev (.closure n c b) v i
    let kept ← numbered.filterM fun (v, i) => do return !(← holds p ev (.closure n c b) v i)
    return (.array (taken.map (·.1)), some (.array (kept.map (·.1))))
  | "reduce", .closure n c b :: start => some do
    let v ← numbered.foldlM (fun acc (v, i) => callBack p ev (.closure n c b) [acc, v, .int i])
      (start.head?.getD .unit)
    return (v, none)
  | "some", [.closure n c b] => some do
    return (.bool (← findItem p ev (.closure n c b) numbered).isSome, none)
  | "all", [.closure n c b] => some do
    let good ← numbered.filterM fun (v, i) => holds p ev (.closure n c b) v i
    return (.bool (good.length == items.length), none)
  | "find", [.closure n c b] => some do
    return ((← findItem p ev (.closure n c b) numbered).map (·.1) |>.getD .unit, none)
  | "index_of", [.closure n c b] => some do
    return (match ← findItem p ev (.closure n c b) numbered with
      | some (_, i) => .int i
      | none => .int (-1), none)
  -- The function is called on each item, which it may change, and told the position if it takes it.
  | "for_each", [.closure n c b] => some do
    let vs ← numbered.mapM fun (v, i) => do
      let arguments := if (function? p n b.length).isSome then [] else [.int i]
      return (← callValue p ev (.closure n c b) (some v) arguments).2.getD v
    return (.unit, some (.array vs))
  -- The items are put in from the back, so items of one rank keep their order.
  | "sort", [.closure n c b] => some do
    let vs ← items.foldrM (insertBy p ev (.closure n c b)) []
    return (.unit, some (.array vs))
  | _, _ => none

/-- Calls a function on a value, which it may change. -/
def callMethod (v : Value) (f : String) (arguments : List Value) : Run σ (Value × Option Value) :=
  let other : Run σ (Value × Option Value) :=
    match function? p f arguments.length with
    | some g => callFunction p ev g [] (some v) arguments
    | none => callNative p f (v :: arguments)
  match v with
  | .closure _ _ _ =>
    if f == "call" then do return ((← callValue p ev v none arguments).1, none) else other
  | .map entries =>
    match entries.lookup f with
    | some (.closure n c b) => callValue p ev (.closure n c b) (some v) arguments
    | _ => other
  | .array items => (callOnItems p ev items f arguments).getD other
  | _ => other

/-! ## Places -/

/-- A property of a value. -/
def propertyOf (v : Value) (x : String) : Run σ Value := do
  match v with
  | .map entries => return (entries.lookup x).getD .unit
  | _ => if propertyNames.contains x then return (← callNative p x [v]).1 else Run.fail

/-- Does something with the value of an expression, which may change it. -/
def update {α : Type} (e : Expr) (act : Value → Run σ (α × Option Value)) : Run σ α :=
  match e with
  | .name x => do
    let (a, changed) ← act (← Scope.read x)
    if let some v := changed then Scope.write x v
    return a
  -- What has become of an item is put back, and so on outwards up to a variable.
  | .index e i => do
    let i ← ev i
    update e fun v => do
      let (a, changed) ← act (← Run.ofResult (itemOf v i))
      match changed with
      | some item => return (a, some (← Run.ofResult (withItem v i item)))
      | none => return (a, none)
  | .property e x =>
    update e fun v => do
      let (a, changed) ← act (← propertyOf p v x)
      match changed, v with
      | some item, .map entries => return (a, some (.map (putEntry x item entries)))
      | some _, _ => Run.fail
      | none, _ => return (a, none)
  | e => do return (← act (← ev e)).1

/-- What an assignment makes of a value. -/
def assigned (op : Option Operator) (old new : Value) : Run σ Value :=
  match op, old, new with
  | none, _, new => return new
  | some .add, .array items, .array more => p.within (.array (items ++ more))
  | some .add, .array items, new => p.within (.array (items ++ [new]))
  | some op, old, new => p.ofResult (op.apply old new)

/-! ## Loops -/

/-- Repeats a round until it says that it was the last one, at most so many times. -/
def rounds : Nat → Run σ Bool → Run σ Unit
  | 0, _ => throw .timeout
  | limit + 1, round => do if ← round then rounds limit round

/-- Does something with each of so many numbers from one on. -/
def counting (act : Nat → Run σ Unit) : Nat → Nat → Run σ Unit
  | 0, _ => pure ()
  | count + 1, i => do
    act i
    counting act count (i + 1)

/-- Runs a loop to its end. -/
def looping (act : Run σ Unit) : Run σ Value := do
  match ← Scope.settled act with
  | .ok _ => return .unit
  | .error (.leave v) => return v
  | .error e => throw e

/-- Runs the body of a loop once. -/
def roundOf (act : Run σ Value) : Run σ Unit := do
  match ← Scope.settled act with
  | .ok _ | .error .again => return
  | .error e => throw e

/-- The truth value of an expression. -/
def truth (e : Expr) : Run σ Bool := do
  match ← ev e with
  | .bool b => return b
  | _ => Run.fail

/-- The number of items that a loop goes over, and each of them. -/
def itemsOf? : Value → Option (Nat × (Nat → Value))
  | .array items =>
    let a := items.toArray
    some (a.size, fun i => a.getD i .unit)
  | .text s =>
    let a := s.toList.toArray
    some (a.size, fun i => .char (a.getD i ' '))
  | .range first last inclusive =>
    some (Value.rangeLength first last inclusive, fun i => .int (first + Int.ofNat i))
  | .steps first last step =>
    some (Value.stepCount first last step, fun i => .int (first + step * Int.ofNat i))
  | _ => none

/-! ## Choices -/

/-- Whether a value is that of a case. -/
def matchesCase (v : Value) (case : Value) : Bool :=
  match v, case with
  | .int n, .range first last inclusive =>
    first ≤ n && (if inclusive then n ≤ last else n < last)
  | v, case => v.typeName == case.typeName && v.same case

/-- The first case that is fitting. -/
def firstCase (v : Value) :
    List (List Expr × Option Expr × Expr) → Run σ (Option Expr)
  | [] => return none
  | (values, guard, result) :: rest => do
    let good ← if values.isEmpty then pure true
      else values.anyM fun e => do return matchesCase v (← ev e)
    let good ← match good, guard with
      | true, some g => truth ev g
      | good, _ => pure good
    if good then return some result else firstCase v rest

/-! ## Expressions -/

/-- The values of expressions in a scope of their own; the last one counts. -/
def sequence (body : List Expr) : Run σ Value :=
  body.foldlM (fun _ e => ev e) .unit

/-- Evaluates an expression with an evaluator for its parts. -/
def step (e : Expr) : Run σ Value := do
  p.tick
  match e with
  | .value v => return v
  | .template parts =>
    parts.foldlM (fun acc part => do p.within (.text (acc.display ++ (← ev part).display)))
      (.text "")
  | .name x => Scope.read x
  | .array items => return .array (← items.mapM ev)
  | .map entries =>
    return .map (← entries.foldlM (fun es (k, e) => do return putEntry k (← ev e) es) [])
  | .index e i => do
    let i ← ev i
    Run.ofResult (itemOf (← ev e) i)
  | .property e x => do propertyOf p (← ev e) x
  | .call f arguments => do
    let vs ← arguments.mapM ev
    let (v, changed) ← callNamed p ev f vs
    -- A function of the library changes its first argument only where that is a variable.
    match changed, arguments with
    | some first, .name x :: _ => Scope.write x first
    | _, _ => pure ()
    return v
  -- The arguments come before the value that the method is called on.
  | .method e f arguments => do
    let vs ← arguments.mapM ev
    update p ev e fun v => callMethod p ev v f vs
  | .negate e => do
    match ← ev e with
    | .int n => Run.ofResult (checked (-n))
    | .float x => return .float (-x)
    | _ => Run.fail
  | .plus e => do
    match ← ev e with
    | .int n => return .int n
    | .float x => return .float x
    | _ => Run.fail
  | .not e => return .bool !(← truth ev e)
  | .binary op a b => do
    let a ← ev a
    let b ← ev b
    p.ofResult (op.apply a b)
  | .and a b => if ← truth ev a then return .bool (← truth ev b) else return .bool false
  | .or a b => if ← truth ev a then return .bool true else return .bool (← truth ev b)
  | .orElse a b => do
    match ← ev a with
    | .unit => ev b
    | v => return v
  | .isIn a b => do
    let a ← ev a
    let b ← ev b
    Run.ofResult (isIn a b)
  | .range a b inclusive => do
    match ← ev a, ← ev b with
    | .int a, .int b => return .range a b inclusive
    | _, _ => Run.fail
  | .assign op target e => do
    let new ← ev e
    update p ev target fun old => do return (.unit, some (← assigned p op old new))
  -- The variables that are there are shared with the function from now on.
  | .closure f captured => do
    let cells ← captured.filterMapM fun x => do return (← Scope.share x).map (x, ·)
    return .closure f cells []
  | .declare x constant e => do
    let v ← ev e
    Scope.declare x v constant
    return .unit
  | .block body => Scope.nested (sequence ev body)
  | .choice condition yes no => if ← truth ev condition then ev yes else ev no
  | .switch e cases otherwise => do
    let v ← ev e
    match (← firstCase ev v cases).or otherwise with
    | some result => ev result
    | none => return .unit
  | .loop before body after =>
    looping <| rounds (p.limits.work + 1) do
      let goesOn ← match before with
        | some condition => truth ev condition
        | none => pure true
      if !goesOn then return false
      roundOf (ev body)
      match after with
      | some (condition, expected) => return (← truth ev condition) == expected
      | none => return true
  | .each x counter e body => do
    match itemsOf? (← ev e) with
    | none => Run.fail
    | some (count, item) =>
      looping <| counting (fun i => roundOf do
          if let some c := counter then Scope.declare c (.int i) false
          Scope.declare x (item i) false
          ev body) count 0
  | .leave e => do
    match e with
    | some e => throw (.leave (← ev e))
    | none => throw (.leave .unit)
  | .again => throw .again
  | .back e => do
    match e with
    | some e => throw (.back (← ev e))
    | none => throw (.back .unit)
  | .throw e => do
    match e with
    | some e => throw (.failed (← ev e))
    | none => throw (.failed .unit)
  | .attempt body x handler => do
    match ← Scope.settled (ev body) with
    | .ok v => return v
    | .error (.failed v) => do
      let ended ← Scope.settled do
        if let some x := x then Scope.declare x v false
        ev handler
      match ended with
      | .ok _ => return .unit
      | .error (.failed .unit) => throw (.failed v)
      | .error e => throw e
    | .error e => throw e

/-- Evaluates an expression of at most some depth. -/
def expression : Nat → Expr → Run σ Value
  | 0, _ => throw .fatal
  | depth + 1, e => step p (expression depth) e

end Eval

/-! ## Scripts -/

/-- What a script comes to. -/
inductive Verdict where
  /-- A text. -/
  | text (s : String)
  /-- A failure. -/
  | failed
  /-- The time is up. -/
  | timeout
  deriving DecidableEq, Repr

/-- The verdict on how a script ended. -/
def Verdict.ofResult : Except Stop Value → Verdict
  | .ok v | .error (.back v) => text v.display
  | .error .timeout => timeout
  | .error _ => failed

/-- Runs a script on the state of a host. -/
def evaluate (limits : Limits) (offer : Offer σ) (source : String) (world : σ) : Verdict × σ :=
  match Script.read? source with
  | none => (.failed, world)
  | some script =>
    let p : Program σ := ⟨script.functions, offer, limits⟩
    let depth := (limits.depth + 2) * (20 * source.length + 22)
    match Eval.sequence (Eval.expression p depth) script.body ⟨world, [], #[], 0, 0, 0⟩ with
    | .ok v r => (.ofResult (.ok v), r.world)
    | .error e r => (.ofResult (.error e), r.world)

end Stencil.Sandbox
