import Stencil.Shell.Utility
import Stencil.Calendar.Format

/-!
# Utilities on files and on the system
-/

namespace Stencil.Shell.Utility

/-- Does nothing, with success. -/
def succeed : Utility := fun r => r.exit 0

/-- Does nothing, without success. -/
def refuse : Utility := fun r => r.exit 1

/-- Prints its arguments. -/
def echo : Utility := fun r => r.say (echoText false r.arguments)

/-- Prints a format. -/
def printf : Utility := fun r =>
  match r.arguments with
  | [] => r.fail 1 (r.name ++ ": missing operand".toList)
  | format :: arguments =>
    let (cs, bad) := printfText true format arguments
    let messages := bad.flatMap fun b => r.name ++ ": '".toList ++ b.text ++
      (if b.started then "': value not completely converted\n"
        else "': expected a numeric value\n").toList
    ⟨if bad.isEmpty then 0 else 1, bytes cs, messages, r.files, 0⟩

/-- What a test sees in the files. -/
def testView (files : Files.Tree) (directory : String) : TestView :=
  let look (cs : List Char) : Option Files.Entry := (files.find (pathFrom directory cs)).toOption
  { present := fun cs => (look cs).isSome
    isFile := fun cs => files.isFile (pathFrom directory cs)
    isDirectory := fun cs => match look cs with
      | some .directory => true
      | _ => false
    isExecutable := fun cs => match look cs with
      | some (.file _ executable) => executable
      | some .directory | some (.program _) => true
      | _ => false
    hasContent := fun cs => match look cs with
      | some (.file content _) => 0 < content.size
      | some .directory | some (.program _) => true
      | _ => false }

/-- Tests its arguments. -/
def test : Utility := fun r =>
  let words := if r.name = ['['] then r.arguments.dropLast else r.arguments
  match testWords (testView r.files r.directory) words with
  | .ok true => r.exit 0
  | .ok false => r.exit 1
  | .error w => r.fail 2 (r.name ++ ": invalid integer '".toList ++ w ++ "'".toList)

/-- The milliseconds of a time in seconds, which may have a fraction and a unit. -/
def milliseconds (cs : List Char) : Nat :=
  let whole := leadingNumber cs * 1000
  let rest := cs.dropWhile Char.isDigit
  let (part, unit) := match rest with
    | '.' :: ds =>
      let ds' := (ds.takeWhile Char.isDigit).take 3
      (leadingNumber ds' * Nat.pow 10 (3 - ds'.length), ds.dropWhile Char.isDigit)
    | unit => (0, unit)
  let factor := match unit with
    | ['m'] => 60
    | ['h'] => 3600
    | ['d'] => 86400
    | _ => 1
  (whole + part) * factor

/-- Waits. -/
def sleep : Utility := fun r =>
  { r.exit 0 with elapsed := (r.arguments.map milliseconds).foldl (· + ·) 0 }

/-- A path without its directory. -/
def lastComponent (cs : List Char) : List Char :=
  let cs := if cs.all (· == '/') then cs.take 1 else (cs.reverse.dropWhile (· == '/')).reverse
  match Text.splitLast '/' cs with
  | some (_, []) => ['/']
  | some (_, name) => name
  | none => cs

/-- Prints a path without its directory, and without an ending. -/
def basename : Utility := fun r =>
  let name := lastComponent (r.arguments.headD [])
  let ending := (r.arguments.drop 1).headD []
  let name := if ending.isSuffixOf name && name ≠ ending then name.take (name.length - ending.length)
    else name
  r.say (name ++ ['\n'])

/-- Prints the directory of a path. -/
def dirname : Utility := fun r =>
  let cs := (r.arguments.headD []).reverse.dropWhile (· == '/') |>.reverse
  r.say ((match Text.splitLast '/' cs with
    | some ([], _) => ['/']
    | some (above, _) => (above.reverse.dropWhile (· == '/')).reverse
    | none => if cs.isEmpty && !r.arguments.isEmpty then ['/'] else ['.']) ++ ['\n'])

/-- Lists directories. -/
def ls : Utility := fun r =>
  let (os, operands) := r.options ""
  let shown (names : List String) : List String :=
    if given os 'a' then "." :: ".." :: names
    else if given os 'A' then names else names.filter fun n => !n.startsWith "."
  let results := (if operands.isEmpty then [['.']] else operands).map fun operand =>
    let path := r.path operand
    match r.files.locate path, r.files.find path with
    | .ok key, .ok .directory =>
      if given os 'd' then (operand, Except.ok [operand])
      else (operand, .ok ((shown (r.files.names key)).map octets))
    | _, .ok _ => (operand, .ok [operand])
    | _, .error e => (operand, .error ("ls: cannot access '".toList ++ operand ++ "': ".toList ++
        octets (reasonOf e) ++ ['\n']))
  let lines := results.flatMap fun (_, result) => match result with
    | .ok names => names
    | .error _ => []
  let messages := results.flatMap fun (_, result) => match result with
    | .ok _ => []
    | .error m => m
  ⟨if messages.isEmpty then 0 else 2, ofLines lines, messages, r.files, 0⟩

/-- Goes through operands, each of which changes the files or gives a message. -/
def overFiles (r : Request) (operands : List (List Char))
    (f : Files.Tree → List Char → Except (List Char) Files.Tree) : Reply :=
  let (files, messages) := operands.foldl (fun (acc : Files.Tree × List Char) operand =>
    match f acc.1 operand with
    | .ok files => (files, acc.2)
    | .error m => (acc.1, acc.2 ++ r.name ++ ": ".toList ++ m ++ ['\n'])) (r.files, [])
  ⟨if messages.isEmpty then 0 else 1, .empty, messages, files, 0⟩

/-- A message that something cannot be done with a file. -/
def cannot (what : String) (operand : List Char) (reason : String) : List Char :=
  "cannot ".toList ++ what.toList ++ " '".toList ++ operand ++ "': ".toList ++ octets reason

/-- Removes files. -/
def rm : Utility := fun r =>
  let (os, operands) := r.options ""
  overFiles r operands fun files operand =>
    let path := r.path operand
    match files.locate path, files.find path with
    | .ok key, .ok .directory =>
      if given os 'r' || given os 'R' then .ok (files.remove key)
      else .error (cannot "remove" operand "Is a directory")
    | .ok key, .ok _ => .ok (files.remove key)
    | _, _ => if given os 'f' then .ok files
      else .error (cannot "remove" operand "No such file or directory")

/-- Makes directories. -/
def mkdir : Utility := fun r =>
  let (os, operands) := r.options "m"
  overFiles r operands fun files operand =>
    let made := if given os 'p' then files.makeDirectories (r.path operand)
      else files.makeDirectory (r.path operand)
    match made with
    | .ok files => .ok files
    | .error e => .error ("cannot create directory '".toList ++ operand ++ "': ".toList ++
        octets (reasonOf e))

/-- Removes empty directories. -/
def rmdir : Utility := fun r =>
  overFiles r r.arguments fun files operand =>
    match files.locate (r.path operand) with
    | .ok key =>
      if !files.isDirectoryKey key then .error ("failed to remove '".toList ++ operand ++
        "': No such file or directory".toList)
      else if (files.names key).isEmpty then .ok (files.remove key)
      else .error ("failed to remove '".toList ++ operand ++ "': Directory not empty".toList)
    | .error e => .error ("failed to remove '".toList ++ operand ++ "': ".toList ++ octets (reasonOf e))

/-- Makes files that are missing. -/
def touch : Utility := fun r =>
  overFiles r r.arguments fun files operand =>
    if files.exists? (r.path operand) then .ok files
    else match files.write (r.path operand) .empty with
      | .ok files => .ok files
      | .error e => .error ("cannot touch '".toList ++ operand ++ "': ".toList ++ octets (reasonOf e))

/-- Where a file goes that is put at a target: into it, if that is a directory. -/
def destination (r : Request) (files : Files.Tree) (target source : List Char) : String :=
  match files.find (r.path target) with
  | .ok .directory => Files.joinPath (r.path target) (textOf (lastComponent source))
  | _ => r.path target

/-- Copies or moves files. -/
def transfer (keep : Bool) : Utility := fun r =>
  let (_, operands) := r.options ""
  let target := operands.getLastD []
  overFiles r operands.dropLast fun files operand =>
    match files.locate (r.path operand), files.find (r.path operand) with
    | .ok key, .ok (.file content executable) =>
      match files.write (destination r files target operand) content with
      | .ok written =>
        let written := match written.locate (destination r files target operand) with
          | .ok place => written.insert place (.file content executable)
          | .error _ => written
        .ok (if keep then written else written.erase key)
      | .error e => .error (cannot (if keep then "create regular file" else "move") target (reasonOf e))
    | _, .ok _ => .error ("-r not specified; omitting directory '".toList ++ operand ++ "'".toList)
    | _, .error e => .error (cannot "stat" operand (reasonOf e))

/-- Makes files executable, or no longer so. -/
def chmod : Utility := fun r =>
  let mode := r.arguments.headD []
  let executable := if mode.contains '+' then some true else if mode.contains '-' then some false
    else (mode.getLast?).map fun c => (c.toNat - 48) % 2 = 1
  overFiles r (r.arguments.drop 1) fun files operand =>
    match files.locate (r.path operand), files.find (r.path operand) with
    | .ok key, .ok (.file content old) =>
      let x := mode.contains 'x' || mode.all Char.isDigit
      .ok (files.insert key (.file content (if x then executable.getD old else old)))
    | _, .ok _ => .ok files
    | _, .error e => .error (cannot "access" operand (reasonOf e))

/-- Prints the environment. -/
def printenv : Utility := fun r =>
  match r.arguments with
  | [] => r.print (ofLines (r.environment.map fun (k, v) => k ++ '=' :: v))
  | names =>
    let values := names.filterMap fun name => r.environment.lookup name
    { r.print (ofLines values) with status := if values.length = names.length then 0 else 1 }

/-- Prints the working directory. -/
def pwd : Utility := fun r => r.say (octets r.directory ++ ['\n'])

/-- Prints the date. -/
def date : Utility := fun r =>
  let time := Calendar.Time.ofSeconds r.now.seconds r.now.nanoseconds
  let format := match r.arguments.find? fun a => a.head? == some '+' with
    | some a => textOf (a.drop 1)
    | none => "%a %b %e %H:%M:%S UTC %Y"
  r.say (octets ((Calendar.format? format time).getD format) ++ ['\n'])

/-- Prints the value of an expression of numbers and comparisons. -/
def expr : Utility := fun r =>
  let isNumber (cs : List Char) : Bool := (argumentNumber cs).2.isNone && !cs.isEmpty
  let number (cs : List Char) : Int := (argumentNumber cs).1
  let value : Option (List Char) := match r.arguments with
    | [a] => some a
    | [a, op, b] =>
      let numeric (f : Int → Int → Int) : Option (List Char) :=
        if isNumber a && isNumber b then some (toString (f (number a) (number b))).toList else none
      let compared (f : Int → Int → Bool) (g : List Char → List Char → Bool) : Option (List Char) :=
        let holds := if isNumber a && isNumber b then f (number a) (number b) else g a b
        some [if holds then '1' else '0']
      match op with
      | ['+'] => numeric (· + ·)
      | ['-'] => numeric (· - ·)
      | ['*'] => numeric (· * ·)
      | ['/'] => if isNumber b && number b = 0 then none else numeric Int.tdiv
      | ['%'] => if isNumber b && number b = 0 then none else numeric Int.tmod
      | ['='] => compared (· == ·) (· == ·)
      | ['!', '='] => compared (· != ·) (· != ·)
      | ['<'] => compared (· < ·) fun a b => decide (a < b)
      | ['>'] => compared (· > ·) fun a b => decide (b < a)
      | _ => none
    | _ => none
  match value with
  | some cs => { r.say (cs ++ ['\n']) with status := if cs.isEmpty || cs = ['0'] then 1 else 0 }
  | none => r.fail 2 "expr: syntax error".toList

/-- Prints the name of the system. -/
def uname : Utility := fun r => r.say "Linux\n".toList

end Stencil.Shell.Utility
