import Stencil.Directives.Variables
import Stencil.Directives.Desktop
import Stencil.Directives.System
import Stencil.Directives.Weather
import Stencil.Directives.Interactive
import Stencil.Directives.Flow
import Stencil.Directives.Readers
import Stencil.Directives.Script
import Stencil.Directives.Meta
import Stencil.Engine

/-!
# The catalog of directives

The built-in directives in the order of evaluation: those on variables first, so that what a
template sets is seen by all others; then those that only look something up; then those that work on
text which others have already put in.
-/

namespace Stencil

open Directives

/-- When a directive is evaluated. -/
inductive Tier where
  /-- Before all built-in directives. -/
  | custom
  /-- First among them. -/
  | high
  /-- After those. -/
  | informational
  /-- Last. -/
  | low
  deriving DecidableEq, Repr

/-- The name of a tier. -/
def Tier.name : Tier → String
  | custom => "custom"
  | high => "high-precedence"
  | informational => "informational"
  | low => "low-precedence"

namespace Catalog

/-- The directives on variables: the changing ones, then the reading ones. -/
def high (host : Host) : List Builtin :=
  VariableOperation.all.map fun op => op.directive host

/-- The directives that look something up. -/
def informational (host : Host) : List Builtin :=
  desktop host ++ SystemValue.all.map (fun v => v.directive host) ++ calendar ++
    [location host, Forecast.current.directive host, Forecast.week.directive host]

/-- The directives on text that is already there, before the scripts. -/
def beforeScripts (host : Host) : List Builtin :=
  Flow.choices.map (flow host) ++ [file host, url host] ++ interactive

/-- The directives that a sandboxed script can call: none that runs such a script. -/
def callable (host : Host) : List Builtin :=
  high host ++ informational host ++ beforeScripts host ++ scripts host []

/-- The directives on text that is already there. -/
def low (host : Host) : List Builtin :=
  beforeScripts host ++ scripts host (callable host) ++ [ignore, cutoff]

/-- The directives of a tier; those of the first are a host's own. -/
def ofTier (host : Host) : Tier → List Builtin
  | .custom => []
  | .high => high host
  | .informational => informational host
  | .low => low host

/-- The tiers of built-in directives, in order. -/
def tiers : List Tier := [.high, .informational, .low]

/-- All built-in directives with their tiers, in the order of evaluation. -/
def entries (host : Host) : List (Tier × Builtin) :=
  tiers.flatMap fun tier => (ofTier host tier).map (tier, ·)

/-- All built-in directives, in the order of evaluation. -/
def builtin (host : Host) : List Builtin := (entries host).map (·.2)

/-- The built-in directive of a name. -/
def find? (host : Host) (name : String) : Option Builtin := Directive.find? (builtin host) name

end Catalog

end Stencil
