import Stencil.Directives.Operand
import Stencil.Calendar.Format

/-!
# Directives on the machine

Date and time, who uses the machine, and what it is called.  A value that depends on arguments of
its token is not kept in the context.
-/

namespace Stencil.Directives

open Template

/-- What a directive tells about the machine. -/
inductive SystemValue where
  | date | time | day | user | homeDirectory | hostname | computerName | uuid | language
  deriving DecidableEq, Repr

namespace SystemValue

/-- All values, in the order of evaluation. -/
def all : List SystemValue :=
  [date, time, day, user, homeDirectory, hostname, computerName, uuid, language]

/-- The name tokens use. -/
def name : SystemValue → String
  | date => "date"
  | time => "time"
  | day => "day"
  | user => "user"
  | homeDirectory => "homedir"
  | hostname => "hostname"
  | computerName => "computerName"
  | uuid => "uuid"
  | language => "systemLanguage"

/-- One line for listings. -/
def description : SystemValue → String
  | date => "Current date, strftime format via format=\"...\""
  | time => "Current time, strftime format via format=\"...\""
  | day => "Current weekday name"
  | user => "Login name of the current user"
  | homeDirectory => "Home directory of the current user"
  | hostname => "Network host name"
  | computerName => "User-facing computer name"
  | uuid => "A new random UUID"
  | language => "Preferred system language"

/-- The result keys: the name, but none for what is new each time. -/
def keys : SystemValue → List String
  | uuid => []
  | value => [value.name]

end SystemValue

/-- The current time in a format. -/
def formatNow (now : Moment) (directive format : String) : Except Failure String :=
  match Calendar.format? format (.ofSeconds now.seconds now.nanoseconds) with
  | some text => .ok text
  | none => .error (.malformed directive s!"invalid format '{format}'")

/-- The next state of a source of random bits. -/
def nextEntropy (n : Nat) : Nat := (n * 6364136223846793005 + 1442695040888963407) % Nat.pow 2 64

/-- A hexadecimal digit. -/
def hexDigit (n : Nat) : Char := if n < 10 then Char.ofNat (48 + n) else Char.ofNat (87 + n)

/-- So many random hexadecimal digits, and the state of the source after them. -/
def randomDigits : Nat → Nat → List Nat × Nat
  | 0, entropy => ([], entropy)
  | count + 1, entropy =>
    let entropy := nextEntropy entropy
    let (digits, rest) := randomDigits count entropy
    (entropy / Nat.pow 2 40 % 16 :: digits, rest)

/-- A random identifier from digits: the thirteenth tells its version, the seventeenth its variant.
-/
def uuidOfDigits (digits : List Nat) : String :=
  let digits := (digits.set 12 4).set 16 (8 + digits.getD 16 0 % 4)
  let cs := digits.map hexDigit
  let part (start length : Nat) : String := .ofList ((cs.drop start).take length)
  "-".intercalate [part 0 8, part 8 4, part 12 4, part 16 4, part 20 12]

/-- A new random identifier. -/
def freshUuid : Action Failure Machine String := do
  let (digits, entropy) := randomDigits 32 (← get).entropy
  modify fun m => { m with entropy := entropy }
  return uuidOfDigits digits

/-- A result as an action. -/
def Action.ofExcept {ε σ α : Type} : Except ε α → Action ε σ α
  | .ok a => pure a
  | .error e => throw e

namespace SystemValue

/-- The value for a token. -/
def read (value : SystemValue) (host : Host) (token : Token) : Action Failure Machine String := do
  let m ← get
  let format (standard : String) : String := (token.args.get? "format").getD standard
  match value with
  | date => Action.ofExcept (formatNow m.now "date" (format "%B %-d, %Y"))
  | time => Action.ofExcept (formatNow m.now "time" (format "%-I:%M:%S %p"))
  | day => Action.ofExcept (formatNow m.now "day" "%A")
  | user => return host.identity.user
  | homeDirectory =>
    match m.environment.home? with
    | some home => return home
    | none => throw (.unavailable "home directory")
  | hostname => return host.identity.hostname
  | computerName => return host.identity.computerName
  | uuid => freshUuid
  | language => return m.environment.language

/-- The directive of a value.  The value is kept under its name when the token has no arguments. -/
def directive (value : SystemValue) (host : Host) : Builtin where
  name := value.name
  description := value.description
  resultKeys := value.keys
  dependencies := []
  constant := false
  apply token _ := do
    let text ← value.read host token
    return if token.args.isEmpty && !value.keys.isEmpty then .keyed value.name text
      else .ofText text

end SystemValue

end Stencil.Directives
