import Stencil.Proofs.Directives.Variables
import Stencil.Proofs.Engine.Fields
import Stencil.Proofs.Store.Counters
import Stencil.Proofs.Store.Leaving
import Stencil.Proofs.Text.Parts

/-!
# What Scripts Ask of the Store

Seven of the functions that a sandboxed script can call are about the store.  Each has a directive evaluated
for a token that was never written in a template, so names and values of any characters go through as they
are.  What comes of it is an operation of the store: its text is what the script gets, or no text if it
fails.  A call that names nothing does nothing.

Main statements: `StoreCall.offer_eq` (one call) and `calls_are_operations` (runs and whole scripts).
-/

namespace Stencil.Directives

open Store Template Sandbox Catalog

variable {σ : Type}

/-! ## §1 Calls -/

/-- A call of a script that is about the store. -/
inductive StoreCall where
  /-- Reads a variable. -/
  | getVar (name : String)
  /-- Makes or changes a variable. -/
  | setVar (name value : String)
  /-- Takes a variable back to its initial value. -/
  | resetVar (name : String)
  /-- Removes a variable. -/
  | deleteVar (name : String)
  /-- Adds one to a counter. -/
  | increment (id : String)
  /-- Takes one from a counter. -/
  | decrement (id : String)
  /-- Lists the variables. -/
  | vars
  deriving DecidableEq

namespace StoreCall

/-- The function that is called. -/
def function : StoreCall → String
  | getVar _ => "get_var"
  | setVar _ _ => "set_var"
  | resetVar _ => "reset_var"
  | deleteVar _ => "delete_var"
  | increment _ => "increment"
  | decrement _ => "decrement"
  | vars => "vars"

/-- What is passed to it. -/
def arguments : StoreCall → List Value
  | setVar name value => [.text name, .text value]
  | getVar s | resetVar s | deleteVar s | increment s | decrement s => [.text s]
  | vars => []

/-- The call that a function with arguments is, if it is one about the store. -/
def ofFunction? : String → List Value → Option StoreCall
  | "get_var", [.text name] => some (getVar name)
  | "set_var", [.text name, .text value] => some (setVar name value)
  | "reset_var", [.text name] => some (resetVar name)
  | "delete_var", [.text name] => some (deleteVar name)
  | "increment", [.text id] => some (increment id)
  | "decrement", [.text id] => some (decrement id)
  | "vars", [] => some vars
  | _, _ => none

/-- The operation of the store that is meant: on the variable of just that name, or on the counter of that
name without the blanks around it.  None is if the name is empty, or blank for a counter. -/
def operation? : StoreCall → Option Store.Call
  | getVar name => if name = "" then none else some (.get name)
  | setVar name value => if name = "" then none else some (.set name value)
  | resetVar name => if name = "" then none else some (.reset name)
  | deleteVar name => if name = "" then none else some (.delete name)
  | increment id => if Text.isBlankText id then none else some (.increment (Text.trim id))
  | decrement id => if Text.isBlankText id then none else some (.decrement (Text.trim id))
  | vars => some .list

/-- What the script gets for a text: setting and deleting give no value. -/
def given : StoreCall → String → Value
  | setVar _ _, _ | deleteVar _, _ => .unit
  | _, text => .text text

/-- The operation that a call means, on a store. -/
def perform (b : Backend σ) (c : StoreCall) : Action Store.Failure σ Value :=
  match c.operation? with
  | none => pure (c.given "")
  | some call => do return c.given (answerText (← call.perform b))

/-- What becomes of a call on a store: the script does not see a failure, and it costs no time. -/
def serve (b : Backend σ) (c : StoreCall) : σ → Value × σ × Nat := fun s =>
  match c.perform b s with
  | .ok v s' => (v, s', 0)
  | .error _ s' => (c.given "", s', 0)

/-- Makes a call of what a host offers; it fails if there is no such function. -/
def make (offer : Offer σ) (c : StoreCall) : Action Unit σ Value := fun s =>
  match offer c.function c.arguments with
  | none => .error () s
  | some act => .ok (act s).1 (act s).2.1

/-- What a host offers that serves the calls about the store by the store alone, and all others as another
host does. -/
def served (b : Backend σ) (others : Offer σ) : Offer σ := fun f arguments =>
  match ofFunction? f arguments with
  | some c => some (c.serve b)
  | none => others f arguments

theorem eq_of_ofFunction? {f : String} {arguments : List Value} {c : StoreCall}
    (h : ofFunction? f arguments = some c) : f = c.function ∧ arguments = c.arguments := by
  unfold ofFunction? at h
  split at h <;> cases h <;> exact ⟨rfl, rfl⟩

/-! ## §2 The directives behind the calls -/

/-- The operation of the directive that is evaluated. -/
def directive : StoreCall → VariableOperation
  | getVar _ => .get
  | setVar _ _ => .set
  | resetVar _ => .reset
  | deleteVar _ => .delete
  | increment _ => .increment
  | decrement _ => .decrement
  | vars => .list

/-- The token that it is evaluated for. -/
def token (c : StoreCall) : Token :=
  match c with
  | getVar name | resetVar name | deleteVar name =>
    .compose c.directive.name (Arguments.none.addWord name) none
  | setVar name value => .compose c.directive.name (Arguments.none.addWord name) (some value)
  | increment id | decrement id => .compose c.directive.name .none (some id)
  | vars => .compose c.directive.name .none none

/-- A function about the store has its directive evaluated for that token. -/
theorem exists_hostCall (c : StoreCall) : ∃ call,
    HostCall.ofFunction? c.function c.arguments = some call ∧ call.token? = some c.token ∧
    ∀ text, (if call.givesText then Value.text text else .unit) = c.given text := by
  cases c <;> exact ⟨_, rfl, rfl, fun _ => rfl⟩

end StoreCall

theorem find?_callable (op : VariableOperation) (host : Host) :
    Directive.find? (callable host) op.name = some (op.directive host) := by
  have hmem : op.directive host ∈ high host := List.mem_map_of_mem (by cases op <;> decide)
  have hnodup : ((high host).map (·.name)).Nodup := by
    have hall := nodup_builtin host
    rw [builtin_eq, List.append_assoc, List.map_append] at hall
    exact hall.of_append_left
  have hfind : (high host).find? (·.name == op.name) = some (op.directive host) :=
    find?_of_mem hnodup hmem
  simp only [Directive.find?, callable, List.append_assoc, List.find?_append, hfind, Option.some_or]

namespace VariableOperation

/-- A directive about a variable takes the first word of its token as it is. -/
theorem target?_word {op : VariableOperation} (hop : op ≠ increment ∧ op ≠ decrement) (name : String)
    (body : Option String) :
    op.target? (.compose op.name (Arguments.none.addWord name) body) =
      if name = "" then none else some name := by
  have hword : op.target? (.compose op.name (Arguments.none.addWord name) body) =
      (some name).filter (!·.isEmpty) := by
    cases op with
    | increment => exact absurd rfl hop.1
    | decrement => exact absurd rfl hop.2
    | _ => rfl
  rw [hword]
  by_cases h : name = "" <;> simp [h]

/-- A directive about a counter takes the body of its token without the blanks around it. -/
theorem target?_body {op : VariableOperation} (hop : op = increment ∨ op = decrement) (id : String) :
    op.target? (.compose op.name .none (some id)) =
      if Text.isBlankText id then none else some (Text.trim id) := by
  have hbody : op.target? (.compose op.name .none (some id)) =
      (some (Text.trim id)).filter (!·.isEmpty) := by
    rcases hop with rfl | rfl <;> rfl
  rw [hbody, ← Text.isEmpty_trim]
  by_cases h : Text.trim id = "" <;> simp [h]

/-- What a directive about one variable or counter does. -/
theorem evaluate_of_target {op : VariableOperation} (hop : op ≠ list) (host : Host) (token : Token) :
    op.evaluate host token =
      match op.target? token with
      | some name => Action.mapError .store
          (do return answerText (← (op.call name token.bodyText).perform host.backend))
      | none => throw (.malformed op.name "missing variable name") := by
  unfold evaluate
  cases op with
  | list => exact absurd rfl hop
  | _ => cases target? _ token <;> simp only [perform_eq]

end VariableOperation

namespace StoreCall

/-- The operation that a call means is that of its directive on what the token is about. -/
theorem operation?_eq {c : StoreCall} (hc : c ≠ vars) :
    c.operation? = (c.directive.target? c.token).map (c.directive.call · c.token.bodyText) := by
  cases c with
  | vars => exact absurd rfl hc
  | increment id | decrement id =>
    rw [operation?, token, directive, VariableOperation.target?_body (by decide)]
    split <;> rfl
  | getVar name | setVar name value | resetVar name | deleteVar name =>
    rw [operation?, token, directive, VariableOperation.target?_word (by decide)]
    split <;> rfl

/-- The directive of a call evaluates to the operation that the call means, or fails if it means none. -/
theorem evaluate_token (c : StoreCall) (host : Host) :
    c.directive.evaluate host c.token =
      match c.operation? with
      | some call => Action.mapError .store (do return answerText (← call.perform host.backend))
      | none => throw (.malformed c.directive.name "missing variable name") := by
  by_cases hc : c = vars
  · -- Listing is about no variable, so its token is not looked at.
    subst hc
    exact congrArg (Action.mapError Failure.store) (VariableOperation.perform_eq .list _ "" "")
  · have hlist : c.directive ≠ .list := by
      cases c <;> first | exact absurd rfl hc | exact VariableOperation.noConfusion
    rw [VariableOperation.evaluate_of_target hlist, operation?_eq hc]
    cases c.directive.target? c.token <;> rfl

/-! ## §3 One call -/

/-- What a call gives, and what becomes of the state, is what its operation does. -/
theorem serve_eq_of_evaluate {c : StoreCall} {host : Host} {m : Machine} :
    c.serve host.backend m =
      match c.directive.evaluate host c.token m with
      | .ok text m' => (c.given text, m', 0)
      | .error _ m' => (c.given "", m', 0) := by
  rw [evaluate_token, serve, perform]
  cases c.operation? with
  | none => rfl
  | some call =>
    cases hr : call.perform host.backend m with
    | ok a m' =>
      simp only [bind_of_ok hr, Action.mapError]
      rfl
    | error e m' => simp only [bind_of_error hr, Action.mapError]

theorem elapsed_serve (c : StoreCall) (host : Host) (m : Machine) :
    (c.serve host.backend m).2.1.elapsed = m.elapsed := by
  have hapart : host.backend.Apart Machine.elapsed :=
    host.place.apart (fun _ _ => rfl) fun _ _ => rfl
  have hleaves : Leaves Machine.elapsed (c.perform host.backend) := by
    unfold perform
    split
    · exact .pure _
    · exact (hapart.perform _).bind fun _ => .pure _
  have hm := hleaves m
  rw [serve]
  cases hr : c.perform host.backend m <;> simpa [hr, stateOf] using hm

/-- The directive behind a call is found and evaluated for its token. -/
theorem perform_hostCall {c : StoreCall} {call : HostCall} (htoken : call.token? = some c.token)
    (host : Host) (ctx : Context) (m : Machine) :
    call.perform (callable host) ctx m =
      match c.directive.evaluate host c.token m with
      | .ok text m' => (text, m')
      | .error _ m' => ("", m') := by
  have hname : c.token.name = c.directive.name := by cases c <;> rfl
  simp only [HostCall.perform, htoken, hname, find?_callable]
  cases hr : c.directive.evaluate host c.token m with
  | ok text m' =>
    have happly : (c.directive.directive host).apply c.token ctx m = .ok (.ofText text) m' :=
      bind_of_ok hr
    simp only [happly, Outcome.ofText]
  | error e m' =>
    have happly : (c.directive.directive host).apply c.token ctx m = .error e m' :=
      bind_of_error hr
    simp only [happly]

/-- **One call.**  A call about the store, with whatever it passes and in any context, is served by the store
alone. -/
theorem offer_eq (host : Host) (ctx : Context) (c : StoreCall) :
    HostCall.offer (callable host) ctx c.function c.arguments = some (c.serve host.backend) := by
  obtain ⟨call, hcall, htoken, hgiven⟩ := c.exists_hostCall
  rw [HostCall.offer, hcall, Option.map_some]
  refine congrArg some (funext fun m => ?_)
  have helapsed := c.elapsed_serve host m
  rw [serve_eq_of_evaluate] at helapsed ⊢
  rw [perform_hostCall htoken]
  split at helapsed
  · dsimp only at helapsed
    simp only [hgiven, helapsed, Nat.sub_self, Nat.zero_mul]
  · dsimp only at helapsed
    simp only [hgiven, helapsed, Nat.sub_self, Nat.zero_mul]

/-- What a host offers to scripts serves the calls about the store by the store alone. -/
theorem offer_eq_served (host : Host) (ctx : Context) {others : Offer Machine}
    (hothers : ∀ f arguments, ofFunction? f arguments = none →
      others f arguments = HostCall.offer (callable host) ctx f arguments) :
    HostCall.offer (callable host) ctx = served host.backend others := by
  funext f arguments
  -- A call is about the store exactly if its function and arguments are read as such a call.
  unfold served
  split
  · rename_i c hc
    obtain ⟨rfl, rfl⟩ := eq_of_ofFunction? hc
    exact offer_eq host ctx c
  · rename_i hnone
    exact (hothers f arguments hnone).symm

theorem perform_ok {b : Backend σ} {items? : σ → Option Items} (hb : b.Keeps items?) {s : σ} {d : Items}
    {records : List Record} (hs : items? s = some d) (hd : recordsIn d = .ok records) (c : StoreCall) :
    ∃ v s' d' records', c.perform b s = .ok v s' ∧ items? s' = some d' ∧
      recordsIn d' = .ok records' := by
  unfold perform
  cases c.operation? with
  | none => exact ⟨_, s, d, records, rfl, hs, hd⟩
  | some call =>
    obtain ⟨a, s', d', records', hcall, hs', hd', -⟩ := Call.perform_counts hb hs hd call
    exact ⟨_, s', d', records', bind_of_ok hcall, hs', hd'⟩

theorem serve_of_none {c : StoreCall} (hc : c.operation? = none) (b : Backend σ) (s : σ) :
    c.serve b s = (c.given "", s, 0) := by
  simp only [serve, perform, hc]
  rfl

/-! ## §4 Runs and scripts -/

section Run

variable {host : Host} (ctx : Context) {m : Machine} {d : Items} {records : List Record}
  (hitems : host.place.items? m = some d) (hrecords : recordsIn d = .ok records)
include hitems hrecords

/-- A run of calls gives what the operations that they mean give, and leaves what those leave. -/
theorem run_eq (calls : List StoreCall) : ∃ values m' d' records',
    calls.mapM (make (HostCall.offer (callable host) ctx)) m = .ok values m' ∧
      calls.mapM (perform host.backend) m = .ok values m' ∧
      host.place.items? m' = some d' ∧ recordsIn d' = .ok records' := by
  induction calls generalizing m d records with
  | nil => exact ⟨[], m, d, records, rfl, rfl, hitems, hrecords⟩
  | cons c calls ih =>
    obtain ⟨v, m₁, d₁, records₁, hc, hitems₁, hrecords₁⟩ :=
      perform_ok host.place.backend_keeps hitems hrecords c
    obtain ⟨values, m', d', records', hmake, hperform, hitems', hrecords'⟩ := ih hitems₁ hrecords₁
    have hcall : make (HostCall.offer (callable host) ctx) c m = .ok v m₁ := by
      have hserve : c.serve host.backend m = (v, m₁, 0) := by
        rw [serve, Host.backend, hc]
      simp only [make, offer_eq, hserve]
    exact ⟨v :: values, m', d', records', mapM_cons_eq_ok.2 ⟨v, m₁, values, hcall, hmake, rfl⟩,
      mapM_cons_eq_ok.2 ⟨v, m₁, values, hc, hperform, rfl⟩, hitems', hrecords'⟩

end Run

end StoreCall

theorem context_step {host : Host} {d : Builtin}
    (hd : d ∈ high host ++ scripts host (callable host)) (token : Token)
    (r : Engine.Rendering Machine) : (r.step d token).context = r.context := by
  have hwrites : Engine.Writes (d.apply token r.context) [] := by
    rcases List.mem_append.1 hd with hd | hd
    · obtain ⟨op, -, rfl⟩ := List.mem_map.1 hd
      exact Engine.writes_ofText _ _
    · obtain ⟨⟨name, target, description⟩, -, rfl⟩ := List.mem_map.1 hd
      exact Engine.writes_ofText _ _
  have hfields := Engine.fields_of_writes (e := ⟨d, token, r.context, r.state⟩) hwrites
  have hnone : (Engine.Evaluation.outcome ⟨d, token, r.context, r.state⟩).fields = [] :=
    List.eq_nil_iff_forall_not_mem.2 fun field hfield => absurd (hfields field hfield) (by simp)
  change Context.merge r.context (Engine.Evaluation.outcome ⟨d, token, r.context, r.state⟩).fields = _
  rw [hnone]
  rfl

/-- **What scripts ask of the store are its operations.**  Where the record list can be read, every run of
calls about the store succeeds, gives what the operations that the calls mean give, and leaves the machine
that those leave; a call that means none gives nothing and changes nothing.  So every script runs as on a
host that serves such calls by the store alone.  The context of the rendering stays as it is. -/
theorem calls_are_operations {host : Host} (ctx : Context) {m : Machine} {d : Items}
    {records : List Record} (hitems : host.place.items? m = some d)
    (hrecords : recordsIn d = .ok records) (calls : List StoreCall) :
    let offer := HostCall.offer (callable host) ctx
    (∃ values m' d' records', calls.mapM (StoreCall.make offer) m = .ok values m' ∧
      calls.mapM (StoreCall.perform host.backend) m = .ok values m' ∧
      host.place.items? m' = some d' ∧ recordsIn d' = .ok records' ∧
      ∀ c : StoreCall, c.operation? = none → c.make offer m' = .ok (c.given "") m') ∧
    (∀ others, (∀ f arguments, StoreCall.ofFunction? f arguments = none →
        others f arguments = offer f arguments) →
      ∀ limits source, evaluate limits offer source m =
        evaluate limits (StoreCall.served host.backend others) source m) ∧
    ∀ d ∈ high host ++ scripts host (callable host), ∀ token (r : Engine.Rendering Machine),
      (r.step d token).context = r.context := by
  intro offer
  refine ⟨?_, fun others hothers limits source => ?_, fun d hd token r => context_step hd token r⟩
  · obtain ⟨values, m', d', records', hmake, hperform, hitems', hrecords'⟩ :=
      StoreCall.run_eq ctx hitems hrecords calls
    refine ⟨values, m', d', records', hmake, hperform, hitems', hrecords', fun c hc => ?_⟩
    simp only [StoreCall.make, offer, StoreCall.offer_eq, StoreCall.serve_of_none hc]
  · rw [← StoreCall.offer_eq_served host ctx hothers]

/-- A name and a value of quotes, braces and blanks, a counter with blanks around its name, and an empty
name. -/
theorem calls_are_operations_marks :
    let name := "say \"\x7b\x7b x \x7d\x7d\": y"
    let value := "\x7d\x7d \""
    let host := stillHost default
    ∃ m', [StoreCall.setVar "" value, .increment " n\t", .setVar name value, .getVar name].mapM
        (StoreCall.make (HostCall.offer (callable host) .empty)) (stillMachine .empty) =
      .ok [.unit, .text "1", .unit, .text value] m' := by
  intro name value host
  let calls : List StoreCall :=
    [.setVar "" value, .increment " n\t", .setVar name value, .getVar name]
  let counted : Items := Dict.empty.insert (counterKey "n") "1"
  -- Until a variable is set there is no record list, and nothing needs to be read back.
  have hnone : (StoreCall.setVar "" value).perform host.backend (stillMachine .empty) =
      .ok .unit (stillMachine .empty) := rfl
  have hcount : (StoreCall.increment " n\t").perform host.backend (stillMachine .empty) =
      .ok (.text "1") (stillMachine counted) := rfl
  let items : Items := withRecords counted [⟨name, value, value⟩]
  have hset : (StoreCall.setVar name value).perform host.backend (stillMachine counted) =
      .ok .unit (stillMachine items) := rfl
  obtain ⟨m', hget, -⟩ := host.place.backend_keeps.get_ok
    (show host.place.items? (stillMachine items) = some items from rfl)
    (recordsIn_withRecords counted [⟨name, value, value⟩]) name
  have hvalue : valueIn [⟨name, value, value⟩] name = value := by decide
  have hread : (StoreCall.getVar name).perform host.backend (stillMachine items) =
      .ok (.text value) m' := by
    have hcall : (Call.get name).perform host.backend (stillMachine items) = .ok (.text value) m' := by
      rw [← hvalue]
      exact bind_of_ok hget
    exact bind_of_ok hcall
  have hrun : calls.mapM (StoreCall.perform host.backend) (stillMachine .empty) =
      .ok [.unit, .text "1", .unit, .text value] m' :=
    mapM_cons_eq_ok.2 ⟨_, _, _, hnone, mapM_cons_eq_ok.2 ⟨_, _, _, hcount, mapM_cons_eq_ok.2
      ⟨_, _, _, hset, mapM_cons_eq_ok.2 ⟨_, _, _, hread, rfl, rfl⟩, rfl⟩, rfl⟩, rfl⟩
  obtain ⟨⟨values, m'', -, -, hmake, hperform, -⟩, -⟩ :=
    calls_are_operations .empty (show host.place.items? (stillMachine .empty) = some .empty from rfl)
      (show recordsIn _ = .ok [] from rfl) calls
  obtain ⟨rfl, rfl⟩ := EStateM.Result.ok.inj (hrun.symm.trans hperform)
  exact ⟨_, hmake⟩

end Stencil.Directives
