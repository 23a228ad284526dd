import Stencil.Settings
import Stencil.Yaml.Scalar
import Stencil.Yaml.Reader

/-!
# Settings in documents

A document gives some settings, and the others keep their defaults.  A group of settings is a
mapping from names, or a sequence of values in the order in which the settings are listed; where
nothing is written, it has none.  Names that are no settings are passed over; a setting given twice
is an error, and so is a value of the wrong kind.
-/

namespace Stencil.Settings

open Yaml

/-! ## Values -/

/-- A text: any scalar, as it is written. -/
def text? : Node → Option String := Node.text?

/-- A text or nothing. -/
def optionalText? : Node → Option (Option String)
  | .scalar s true => some (if s.isEmpty || isNull s then none else some s)
  | .scalar s false => some (some s)
  | _ => none

/-- A truth value. -/
def flag? : Node → Option Bool
  | .scalar s true => bool? s
  | _ => none

/-- A number. -/
def number? : Node → Option Nat
  | .scalar s true => nat64? s
  | _ => none

/-- A number or nothing. -/
def optionalNumber? : Node → Option (Option Nat)
  | .scalar s true => if s.isEmpty || isNull s then some none else (nat64? s).map some
  | _ => none

/-- Whether nothing is written. -/
def isAbsent : Node → Bool
  | .scalar s true => s.isEmpty
  | _ => false

/-- A list. -/
def list? {α : Type} (item? : Node → Option α) : Node → Option (List α)
  | .sequence items => items.mapM item?
  | node => if isAbsent node then some [] else none

/-! ## Groups -/

/-- The values that a group gives for names. -/
abbrev Group := List (String × Node)

/-- The values that a node gives for the settings of a group. -/
def group? (names : List String) : Node → Option Group
  | .mapping entries => do
    let named ← entries.mapM fun (key, value) => key.text?.map (·, value)
    let known := named.filter fun (name, _) => names.contains name
    if names.all fun name => (known.filter (·.1 == name)).length ≤ 1 then some known else none
  | .sequence items => if items.length ≤ names.length then some (names.zip items) else none
  | node => if isAbsent node then some [] else none

/-- The value of a setting, or its default. -/
def Group.read {α : Type} (g : Group) (name : String) (value? : Node → Option α) (default : α) :
    Option α :=
  match g.lookup name with
  | some node => value? node
  | none => some default

/-- How scripts are run. -/
def scripts? (d : Scripts) (node : Node) : Option Scripts := do
  let g ← group? ["default-shell", "export-login-path", "login-shell", "sandbox-timeout-ms",
    "sandbox-max-operations", "dialog-timeout-secs", "process-timeout-ms"] node
  some
    { defaultShell := ← g.read "default-shell" text? d.defaultShell
      exportLoginPath := ← g.read "export-login-path" flag? d.exportLoginPath
      loginShell := ← g.read "login-shell" text? d.loginShell
      sandboxTimeout := ← g.read "sandbox-timeout-ms" number? d.sandboxTimeout
      sandboxOperations := ← g.read "sandbox-max-operations" number? d.sandboxOperations
      dialogTimeout := ← g.read "dialog-timeout-secs" number? d.dialogTimeout
      processTimeout := ← g.read "process-timeout-ms" optionalNumber? d.processTimeout }

/-- How the network is used. -/
def network? (d : Network) (node : Node) : Option Network := do
  let g ← group? ["enabled", "timeout-ms", "user-agent", "max-body-bytes"] node
  some
    { enabled := ← g.read "enabled" flag? d.enabled
      timeout := ← g.read "timeout-ms" number? d.timeout
      userAgent := ← g.read "user-agent" text? d.userAgent
      maxBytes := ← g.read "max-body-bytes" number? d.maxBytes }

/-- A group of one setting. -/
def sole? {α : Type} (name : String) (value? : Node → Option α) (default : α) (node : Node) :
    Option α := do
  (← group? [name] node).read name value? default

/-- A configured placeholder; its name and value must be given. -/
def placeholder? (node : Node) : Option Custom.Placeholder := do
  let g ← group? ["name", "value", "description", "constant"] node
  some
    { name := ← (g.lookup "name").bind text?
      value := ← (g.lookup "value").bind text?
      description := ← g.read "description" optionalText? none
      constant := ← g.read "constant" flag? false }

/-- The settings that a document gives, with defaults for the others. -/
def ofNode? (d : Settings) (node : Node) : Option Settings := do
  let g ← group? ["log-level", "scripts", "store", "network", "engine", "custom"] node
  some
    { logLevel := ← g.read "log-level" optionalText? d.logLevel
      scripts := ← g.read "scripts" (scripts? d.scripts) d.scripts
      storePath := ← g.read "store" (sole? "path" text? d.storePath) d.storePath
      network := ← g.read "network" (network? d.network) d.network
      evaluationLimit :=
        ← g.read "engine" (sole? "max-passes-per-directive" number? d.evaluationLimit)
            d.evaluationLimit
      custom := ← g.read "custom" (list? placeholder?) d.custom }

/-- Reads settings from the text of a document. -/
def read? (d : Settings) (text : String) : Option Settings := do ofNode? d (← Yaml.read? text)

end Stencil.Settings
