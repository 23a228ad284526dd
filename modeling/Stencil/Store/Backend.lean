import Stencil.Dict

/-!
# Backends of the store

A backend keeps strings under keys.  Its operations are actions on a state that may fail; a failing
action leaves behind whatever state it had reached.
-/

namespace Stencil

/-- An action that changes a state, and gives a value or fails. -/
abbrev Action (ε σ α : Type) := EStateM ε σ α

namespace Store

/-- Why an operation of the store fails. -/
inductive Failure where
  /-- The record list is no JSON list of records. -/
  | malformedRecords
  /-- The store file holds no JSON object of strings. -/
  | malformedFile
  /-- The store file is no UTF-8. -/
  | notText
  /-- The store file cannot be opened. -/
  | cannotOpen (path : String)
  /-- The directory of the store file cannot be made. -/
  | cannotMakeDirectory
  /-- Anything else, in words. -/
  | other (reason : String)
  deriving DecidableEq, Repr

/-- The text of a failure. -/
def Failure.message : Failure → String
  | malformedRecords => "Failed to parse persistent variables"
  | malformedFile => "Store file is not a JSON object of strings"
  | notText => "stream did not contain valid UTF-8"
  | cannotOpen path => "Failed to open store file: " ++ path
  | cannotMakeDirectory => "Failed to create store directory"
  | other reason => reason

/-- Strings under keys, as the store sees them. -/
abbrev Items := Dict String

/-- What keeps strings under keys. -/
structure Backend (σ : Type) where
  /-- The string under a key. -/
  getItem : String → Action Failure σ (Option String)
  /-- Puts a string under a key. -/
  setItem : String → String → Action Failure σ Unit
  /-- Drops a key; an absent one is no failure. -/
  removeItem : String → Action Failure σ Unit
  /-- The keys, smallest first. -/
  keys : Action Failure σ (List String)

/-- The backend that keeps its items in memory. -/
def Backend.memory : Backend Items where
  getItem key := do return (← get).get? key
  setItem key value := modify (·.insert key value)
  removeItem key := modify (·.erase key)
  keys := do return (← get).keys

/-- A backend on a part of a larger state. -/
def Backend.on {σ τ : Type} (b : Backend σ) (part : τ → σ) (put : σ → τ → τ) : Backend τ where
  getItem key := lift (b.getItem key)
  setItem key value := lift (b.setItem key value)
  removeItem key := lift (b.removeItem key)
  keys := lift b.keys
where
  lift {α : Type} (act : Action Failure σ α) : Action Failure τ α := fun t =>
    match act (part t) with
    | .ok a s => .ok a (put s t)
    | .error e s => .error e (put s t)

end Store

end Stencil
