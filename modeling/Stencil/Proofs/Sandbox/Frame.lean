import Stencil.Proofs.Store.Leaving
import Stencil.Sandbox.Eval

/-!
# Scripts Reach Their Host Only Through Its Functions

A script changes the state of its host by calls of the functions that the host offers, and in no other
way.  So what no such function changes, no script changes.

Main statement: `evaluate_leaves`.
-/

namespace Stencil.Sandbox

open Store

variable {σ α γ : Type}

/-- Whether a part of a script leaves what is seen of the state of the host. -/
abbrev Keeps (view : σ → γ) (act : Run σ α) : Prop := Leaves (fun r => view r.world) act

/-- Whether no function that a host offers changes what is seen of its state. -/
def Offer.Keeps (offer : Offer σ) (view : σ → γ) : Prop :=
  ∀ f arguments act, offer f arguments = some act → ∀ world, view (act world).2.1 = view world

variable {view : σ → γ} {p : Program σ}

theorem view_set_bind {r r' : Running σ} {f : Unit → Run σ α} (hworld : view r'.world = view r.world)
    (h : Keeps view (f ())) : view (stateOf ((set r' >>= f) r)).world = view r.world :=
  (h r').trans hworld

/-! ## §1 Limits and variables -/

theorem keeps_fail : Keeps view (Run.fail : Run σ α) := .throw _

theorem keeps_ofResult (result : Option α) : Keeps view (Run.ofResult result : Run σ α) := by
  cases result with
  | none => exact keeps_fail
  | some a => exact .pure a

theorem Program.keeps_labour (amount : Nat) : Keeps view (p.labour amount) := by
  refine Leaves.bind (.modify fun _ => rfl) fun _ => Leaves.bind .get fun r => ?_
  split
  · exact .throw _
  · exact .pure _

theorem Program.keeps_tick : Keeps view p.tick := by
  refine Leaves.bind (.modify fun _ => rfl) fun _ => Leaves.bind .get fun r => ?_
  dsimp only
  split
  · exact .throw_bind _ _
  · exact keeps_labour 1

theorem Program.keeps_within (v : Value) : Keeps view (p.within v) := by
  have hlabour : Keeps view (do p.labour (sizeOf v); return v) :=
    Leaves.bind (keeps_labour _) fun _ => .pure v
  unfold within
  dsimp only
  split
  · split
    · exact .throw_bind _ _
    · exact hlabour
  · exact hlabour

theorem Program.keeps_ofResult (result : Result) : Keeps view (p.ofResult result) :=
  Leaves.bind (Sandbox.keeps_ofResult result) fun v => keeps_within v

namespace Scope

theorem keeps_read (x : String) : Keeps view (read x : Run σ Value) := by
  refine Leaves.bind .get fun r => ?_
  split
  · exact keeps_fail
  · split
    · exact .pure _
    · exact .pure _

theorem keeps_write (x : String) (v : Value) : Keeps view (write x v : Run σ Unit) := by
  refine Leaves.bind .get fun r => ?_
  split
  · exact keeps_fail
  · split
    · exact keeps_fail
    · split
      · exact .modify fun _ => rfl
      · exact .modify fun _ => rfl

theorem keeps_declare (x : String) (v : Value) (constant : Bool) :
    Keeps view (declare x v constant : Run σ Unit) :=
  .modify fun _ => rfl

theorem keeps_share (x : String) : Keeps view (share x : Run σ (Option Nat)) := by
  refine Leaves.get_bind fun r => ?_
  cases r.scope.find? (·.name == x) with
  | none => rfl
  | some b =>
    dsimp only
    cases b.cell with
    | none => rfl
    | some cell => rfl

theorem keeps_nested {act : Run σ α} (h : Keeps view act) : Keeps view (nested act) :=
  -- Only the scope is put back to what it was, not the state of the host.
  Leaves.bind .get fun _ => h.bind fun a => Leaves.bind (.modify fun _ => rfl) fun _ => .pure a

theorem keeps_settled {act : Run σ α} (h : Keeps view act) : Keeps view (settled act) := by
  -- However the action ends, the state is the one that it ended in.
  intro r
  have hact := h r
  unfold settled
  cases hr : act r <;> simpa [hr, stateOf] using hact

end Scope

/-! ## §2 Calls -/

namespace Eval

variable {ev : Expr → Run σ Value}

theorem keeps_callFunction (hev : ∀ e, Keeps view (ev e)) (f : Function)
    (captured : List (String × Nat)) (this : Option Value) (arguments : List Value) :
    Keeps view (callFunction p ev f captured this arguments) := by
  refine Leaves.get_bind fun r => ?_
  dsimp only
  split
  · rfl
  · -- The function starts in a scope of its own, on the same state of the host.
    refine view_set_bind rfl (Leaves.bind (Scope.keeps_settled (hev f.body)) fun ended =>
      Leaves.bind .get fun now => Leaves.bind (.modify fun _ => rfl) fun _ => ?_)
    split
    · exact .pure _
    · exact .pure _
    · exact keeps_fail
    · exact keeps_fail
    · exact .throw _

theorem keeps_callNative (hoffer : p.offer.Keeps view) (f : String) (arguments : List Value) :
    Keeps view (callNative p f arguments) := by
  unfold callNative
  cases hact : p.offer f arguments with
  | some act =>
    -- The only step of a script that can change the state of the host.
    refine Leaves.get_bind fun r => ?_
    have hworld := hoffer f arguments act hact r.world
    generalize act r.world = result at hworld ⊢
    obtain ⟨v, world, work⟩ := result
    exact view_set_bind hworld (Leaves.bind (p.keeps_labour work) fun _ =>
      Leaves.bind (p.keeps_within v) fun v => .pure (v, none))
  | none =>
    refine Leaves.bind (p.keeps_labour _) fun _ => ?_
    split
    · exact keeps_fail
    · exact keeps_fail
    · refine Leaves.bind (p.keeps_within _) fun v => ?_
      split
      · exact Leaves.bind (p.keeps_within _) fun _ => .pure _
      · exact .pure _

section Evaluator

variable (hoffer : p.offer.Keeps view) (hev : ∀ e, Keeps view (ev e))
include hoffer hev

theorem keeps_callNamed (f : String) (arguments : List Value) :
    Keeps view (callNamed p ev f arguments) := by
  unfold callNamed
  split
  · exact Leaves.bind (keeps_callFunction hev _ _ _ _) fun result => .pure (result.1, none)
  · exact keeps_callNative hoffer _ _

theorem keeps_callValue (f : Value) (this : Option Value) (arguments : List Value) :
    Keeps view (callValue p ev f this arguments) := by
  unfold callValue
  split
  · split
    · exact keeps_callFunction hev _ _ _ _
    · exact keeps_callNative hoffer _ _
  · exact keeps_fail

theorem keeps_callBack (f : Value) (arguments : List Value) :
    Keeps view (callBack p ev f arguments) := by
  unfold callBack
  split
  · dsimp only
    split
    · exact Leaves.bind (keeps_callFunction hev _ _ _ _) fun result => .pure result.1
    · exact Leaves.bind (keeps_callFunction hev _ _ _ _) fun result => .pure result.1
    · exact Leaves.bind (keeps_callNative hoffer _ _) fun result => .pure result.1
  · exact keeps_fail

theorem keeps_holds (f item : Value) (position : Nat) :
    Keeps view (holds p ev f item position) := by
  refine Leaves.bind (keeps_callBack hoffer hev _ _) fun v => ?_
  split
  · exact .pure _
  · exact .pure false

theorem keeps_insertBy (f item : Value) (items : List Value) :
    Keeps view (insertBy p ev f item items) := by
  induction items with
  | nil => exact .pure [item]
  | cons first rest ih =>
    refine Leaves.bind (keeps_callBack hoffer hev _ _) fun v => ?_
    have hrest : Keeps view (do return first :: (← insertBy p ev f item rest)) :=
      Leaves.bind ih fun items => .pure (first :: items)
    split
    · split
      · exact .pure _
      · exact hrest
    · exact .pure _

theorem keeps_findItem (f : Value) (items : List (Value × Nat)) :
    Keeps view (findItem p ev f items) := by
  induction items with
  | nil => exact .pure none
  | cons first rest ih =>
    refine Leaves.bind (keeps_holds hoffer hev _ _ _) fun b => ?_
    split
    · exact .pure _
    · exact ih

/-- The methods of arrays only call the function that they take. -/
theorem keeps_callOnItems (items : List Value) (f : String) (arguments : List Value) :
    ∀ act ∈ callOnItems p ev items f arguments, Keeps view act := by
  have hback (g : Value) (vs : List Value) : Keeps view (callBack p ev g vs) :=
    keeps_callBack hoffer hev g vs
  have hholds (g v : Value) (i : Nat) : Keeps view (holds p ev g v i) := keeps_holds hoffer hev g v i
  have hfails (g v : Value) (i : Nat) : Keeps view (do return !(← holds p ev g v i)) :=
    Leaves.bind (hholds g v i) fun b => .pure !b
  have hfind (g : Value) (vs : List (Value × Nat)) : Keeps view (findItem p ev g vs) :=
    keeps_findItem hoffer hev g vs
  intro act hact
  unfold callOnItems at hact
  split at hact
  · -- `map`
    cases hact
    exact Leaves.bind (.mapM (fun _ => hback _ _) _) fun _ => .pure _
  · -- `filter`
    cases hact
    exact Leaves.bind (.filterM (fun _ => hholds _ _ _) _) fun _ => .pure _
  · -- `retain`
    cases hact
    exact Leaves.bind (.filterM (fun _ => hholds _ _ _) _) fun _ =>
      Leaves.bind (.filterM (fun _ => hfails _ _ _) _) fun _ => .pure _
  · -- `drain`
    cases hact
    exact Leaves.bind (.filterM (fun _ => hholds _ _ _) _) fun _ =>
      Leaves.bind (.filterM (fun _ => hfails _ _ _) _) fun _ => .pure _
  · -- `reduce`
    cases hact
    exact Leaves.bind (.foldlM (fun _ _ => hback _ _) _ _) fun _ => .pure _
  · -- `some`
    cases hact
    exact Leaves.bind (hfind _ _) fun _ => .pure _
  · -- `all`
    cases hact
    exact Leaves.bind (.filterM (fun _ => hholds _ _ _) _) fun _ => .pure _
  · -- `find`
    cases hact
    exact Leaves.bind (hfind _ _) fun _ => .pure _
  · -- `index_of`
    cases hact
    exact Leaves.bind (hfind _ _) fun _ => .pure _
  · -- `for_each`
    cases hact
    refine Leaves.bind (.mapM (fun _ => ?_) _) fun _ => .pure _
    exact Leaves.bind (keeps_callValue hoffer hev _ _ _) fun _ => .pure _
  · -- `sort`
    cases hact
    exact Leaves.bind (.foldrM (fun _ _ => keeps_insertBy hoffer hev _ _ _) _ _) fun _ => .pure _
  · exact absurd hact (by simp)

theorem keeps_callMethod (v : Value) (f : String) (arguments : List Value) :
    Keeps view (callMethod p ev v f arguments) := by
  unfold callMethod
  extract_lets other
  -- What is no method of the value itself is a function of that name, with the value for `this`.
  have hother : Keeps view other := by
    unfold other
    split
    · exact keeps_callFunction hev _ _ _ _
    · exact keeps_callNative hoffer _ _
  split
  · split
    · exact Leaves.bind (keeps_callValue hoffer hev _ _ _) fun result => .pure (result.1, none)
    · exact hother
  · split
    · exact keeps_callValue hoffer hev _ _ _
    · exact hother
  · rename_i items
    cases hact : callOnItems p ev items f arguments with
    | none => exact hother
    | some act => exact keeps_callOnItems hoffer hev items f arguments act hact
  · exact hother

/-! ## §3 Places and loops -/

omit hev in
theorem keeps_propertyOf (v : Value) (x : String) : Keeps view (propertyOf p v x) := by
  unfold propertyOf
  split
  · exact .pure _
  · split
    · exact Leaves.bind (keeps_callNative hoffer _ _) fun result => .pure result.1
    · exact keeps_fail

/-- Doing something with the value of a place leaves what doing it leaves, wherever the place is. -/
theorem keeps_update (e : Expr) {act : Value → Run σ (α × Option Value)}
    (hact : ∀ v, Keeps view (act v)) : Keeps view (update p ev e act) := by
  cases e with
  | name x =>
    refine Leaves.bind (Scope.keeps_read x) fun v => Leaves.bind (hact v) fun result => ?_
    obtain ⟨a, changed⟩ := result
    cases changed with
    | none => exact .pure a
    | some v => exact Leaves.bind (Scope.keeps_write x v) fun _ => .pure a
  | index e i =>
    refine Leaves.bind (hev i) fun i => keeps_update e fun v => ?_
    refine Leaves.bind (keeps_ofResult _) fun item => Leaves.bind (hact item) fun result => ?_
    obtain ⟨a, changed⟩ := result
    cases changed with
    | none => exact .pure _
    | some item => exact Leaves.bind (keeps_ofResult _) fun v => .pure _
  | property e x =>
    refine keeps_update e fun v => Leaves.bind (keeps_propertyOf hoffer v x) fun item => ?_
    refine Leaves.bind (hact item) fun result => ?_
    obtain ⟨a, changed⟩ := result
    dsimp only
    split
    · exact .pure _
    · exact keeps_fail
    · exact .pure _
  -- Anything else is no place: what is done with its value changes nothing.
  | _ => exact Leaves.bind (hev _) fun v => Leaves.bind (hact v) fun result => .pure result.1

omit hoffer hev in
theorem keeps_assigned (op : Option Operator) (old new : Value) :
    Keeps view (assigned p op old new) := by
  unfold assigned
  split
  · exact .pure _
  · exact p.keeps_within _
  · exact p.keeps_within _
  · exact p.keeps_ofResult _

end Evaluator

theorem keeps_rounds {round : Run σ Bool} (h : Keeps view round) (limit : Nat) :
    Keeps view (rounds limit round) := by
  induction limit with
  | zero => exact .throw _
  | succ limit ih =>
    refine Leaves.bind h fun last => ?_
    split
    · exact ih
    · exact .pure _

theorem keeps_counting {act : Nat → Run σ Unit} (h : ∀ i, Keeps view (act i)) (count i : Nat) :
    Keeps view (counting act count i) := by
  induction count generalizing i with
  | zero => exact .pure ()
  | succ count ih => exact Leaves.bind (h i) fun _ => ih (i + 1)

theorem keeps_looping {act : Run σ Unit} (h : Keeps view act) : Keeps view (looping act) := by
  refine Leaves.bind (Scope.keeps_settled h) fun ended => ?_
  split
  · exact .pure _
  · exact .pure _
  · exact .throw _

theorem keeps_roundOf {act : Run σ Value} (h : Keeps view act) : Keeps view (roundOf act) := by
  refine Leaves.bind (Scope.keeps_settled h) fun ended => ?_
  split
  · exact .pure _
  · exact .pure _
  · exact .throw _

section Evaluator

variable (hev : ∀ e, Keeps view (ev e))
include hev

theorem keeps_truth (e : Expr) : Keeps view (truth ev e) := by
  refine Leaves.bind (hev e) fun v => ?_
  split
  · exact .pure _
  · exact keeps_fail

theorem keeps_firstCase (v : Value) (cases : List (List Expr × Option Expr × Expr)) :
    Keeps view (firstCase ev v cases) := by
  induction cases with
  | nil => exact .pure none
  | cons first rest ih =>
    obtain ⟨values, guard, result⟩ := first
    have hrest (good : Bool) : Keeps view
        (if good then return some result else firstCase ev v rest) := by
      split
      · exact .pure _
      · exact ih
    have hvalues : Keeps view (values.anyM fun e => do return matchesCase v (← ev e)) :=
      .anyM (fun e => Leaves.bind (hev e) fun w => .pure (matchesCase v w)) values
    rw [firstCase]
    split
    on_goal 1 => refine Leaves.bind (.pure true) fun good => ?_
    on_goal 2 => refine Leaves.bind hvalues fun good => ?_
    -- Whether the case is fitting is known; its guard may still say no.
    all_goals
      dsimp only
      split
      · exact Leaves.bind (keeps_truth hev _) hrest
      · exact Leaves.bind (.pure _) hrest

theorem keeps_sequence (body : List Expr) : Keeps view (sequence ev body) :=
  .foldlM (fun _ e => hev e) body .unit

end Evaluator

/-! ## §4 Expressions -/

/-- An expression leaves what its parts and the functions of the host leave. -/
theorem keeps_step (hoffer : p.offer.Keeps view) (hev : ∀ e, Keeps view (ev e)) (e : Expr) :
    Keeps view (step p ev e) := by
  refine Leaves.bind p.keeps_tick fun _ => ?_
  cases e with
  | value v => exact .pure v
  | template parts =>
    exact .foldlM (fun _ part => Leaves.bind (hev part) fun _ => p.keeps_within _) parts _
  | name x => exact Scope.keeps_read x
  | array items => exact Leaves.bind (.mapM hev items) fun _ => .pure _
  | map entries =>
    exact Leaves.bind (.foldlM (fun _ entry => Leaves.bind (hev entry.2) fun _ => .pure _) entries _)
      fun _ => .pure _
  | index e i =>
    exact Leaves.bind (hev i) fun _ => Leaves.bind (hev e) fun _ => keeps_ofResult _
  | property e x => exact Leaves.bind (hev e) fun v => keeps_propertyOf hoffer v x
  | call f arguments =>
    refine Leaves.bind (.mapM hev arguments) fun vs =>
      Leaves.bind (keeps_callNamed hoffer hev f vs) fun result => ?_
    obtain ⟨v, changed⟩ := result
    dsimp only
    split
    · exact Leaves.bind (Scope.keeps_write _ _) fun _ => .pure v
    · exact .pure v
  | method e f arguments =>
    exact Leaves.bind (.mapM hev arguments) fun vs =>
      keeps_update hoffer hev e fun v => keeps_callMethod hoffer hev v f vs
  | negate e =>
    refine Leaves.bind (hev e) fun v => ?_
    split
    · exact keeps_ofResult _
    · exact .pure _
    · exact keeps_fail
  | plus e =>
    refine Leaves.bind (hev e) fun v => ?_
    split
    · exact .pure _
    · exact .pure _
    · exact keeps_fail
  | not e => exact Leaves.bind (keeps_truth hev e) fun _ => .pure _
  | binary op a b =>
    exact Leaves.bind (hev a) fun _ => Leaves.bind (hev b) fun _ => p.keeps_ofResult _
  | and a b =>
    refine Leaves.bind (keeps_truth hev a) fun first => ?_
    split
    · exact Leaves.bind (keeps_truth hev b) fun _ => .pure _
    · exact .pure _
  | or a b =>
    refine Leaves.bind (keeps_truth hev a) fun first => ?_
    split
    · exact .pure _
    · exact Leaves.bind (keeps_truth hev b) fun _ => .pure _
  | orElse a b =>
    refine Leaves.bind (hev a) fun v => ?_
    split
    · exact hev b
    · exact .pure _
  | isIn a b =>
    exact Leaves.bind (hev a) fun _ => Leaves.bind (hev b) fun _ => keeps_ofResult _
  | range a b inclusive =>
    refine Leaves.bind (hev a) fun first => Leaves.bind (hev b) fun last => ?_
    split
    · exact .pure _
    · exact keeps_fail
  | assign op target e =>
    exact Leaves.bind (hev e) fun new => keeps_update hoffer hev target fun old =>
      Leaves.bind (keeps_assigned op old new) fun _ => .pure _
  | closure f captured =>
    exact Leaves.bind (.filterMapM (fun x => Leaves.bind (Scope.keeps_share x) fun _ => .pure _)
      captured) fun _ => .pure _
  | declare x constant e =>
    exact Leaves.bind (hev e) fun v => Leaves.bind (Scope.keeps_declare x v constant) fun _ => .pure _
  | block body => exact Scope.keeps_nested (keeps_sequence hev body)
  | choice condition yes no =>
    refine Leaves.bind (keeps_truth hev condition) fun good => ?_
    split
    · exact hev yes
    · exact hev no
  | switch e cases otherwise =>
    refine Leaves.bind (hev e) fun v => Leaves.bind (keeps_firstCase hev v cases) fun first => ?_
    split
    · exact hev _
    · exact .pure _
  | loop before body after =>
    refine keeps_looping (keeps_rounds ?_ _)
    cases before
    on_goal 1 => refine Leaves.bind (.pure true) fun goesOn => ?_
    on_goal 2 => refine Leaves.bind (keeps_truth hev _) fun goesOn => ?_
    -- If the round is made, the condition after it may end the loop.
    all_goals
      dsimp only
      split
      · exact .pure false
      · refine Leaves.bind (keeps_roundOf (hev body)) fun _ => ?_
        split
        · exact Leaves.bind (keeps_truth hev _) fun _ => .pure _
        · exact .pure true
  | each x counter e body =>
    refine Leaves.bind (hev e) fun v => ?_
    split
    · exact keeps_fail
    · rename_i count item hitems
      refine keeps_looping (keeps_counting (fun i => keeps_roundOf ?_) count 0)
      have hbody : Keeps view (do Scope.declare x (item i) false; ev body) :=
        Leaves.bind (Scope.keeps_declare x _ _) fun _ => hev body
      cases counter with
      | none => exact hbody
      | some c => exact Leaves.bind (Scope.keeps_declare c _ _) fun _ => hbody
  | leave e =>
    cases e with
    | none => exact .throw _
    | some e => exact Leaves.bind (hev e) fun _ => .throw _
  | again => exact .throw _
  | back e =>
    cases e with
    | none => exact .throw _
    | some e => exact Leaves.bind (hev e) fun _ => .throw _
  | throw e =>
    cases e with
    | none => exact .throw _
    | some e => exact Leaves.bind (hev e) fun _ => .throw _
  | attempt body x handler =>
    refine Leaves.bind (Scope.keeps_settled (hev body)) fun ended => ?_
    split
    · exact .pure _
    · refine Leaves.bind (Scope.keeps_settled ?_) fun ended => ?_
      · cases x with
        | none => exact hev handler
        | some x => exact Leaves.bind (Scope.keeps_declare x _ _) fun _ => hev handler
      split
      · exact .pure _
      · exact .throw _
      · exact .throw _
    · exact .throw _

/-- Expressions of any depth leave what the functions of the host leave. -/
theorem keeps_expression (hoffer : p.offer.Keeps view) (depth : Nat) (e : Expr) :
    Keeps view (expression p depth e) := by
  induction depth generalizing e with
  | zero => exact .throw _
  | succ depth ih => exact keeps_step hoffer ih e

end Eval

/-- **Scripts reach their host only through its functions.**  What none of the functions that a host
offers changes, no script changes, however it ends. -/
theorem evaluate_leaves (limits : Limits) {offer : Offer σ} {view : σ → γ}
    (hoffer : offer.Keeps view) (source : String) (world : σ) :
    view (evaluate limits offer source world).2 = view world := by
  unfold evaluate
  split
  · rfl
  · rename_i script hscript
    dsimp only
    -- How deep a script may nest plays no part, nor whether it stopped early.
    generalize (limits.depth + 2) * (20 * source.length + 22) = depth
    have hrun := Eval.keeps_sequence (Eval.keeps_expression (p := ⟨script.functions, offer, limits⟩)
      hoffer depth) script.body ⟨world, [], #[], 0, 0, 0⟩
    split
    · rename_i v r hr
      rwa [hr] at hrun
    · rename_i stop r hr
      rwa [hr] at hrun

end Stencil.Sandbox
