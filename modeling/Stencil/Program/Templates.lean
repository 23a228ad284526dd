import Stencil.Program.Report
import Stencil.Program.Tools
import Stencil.CommandLine.Templates
import Stencil.Settings.Loading
import Stencil.Catalog
import Stencil.Automation

/-!
# The template program

It reads its command line, sets its log up, reads its settings, and carries the command out.
-/

namespace Stencil.Program.Templates

open CommandLine.Templates

/-! ## Logging -/

/-- The names of the log levels, in upper case. -/
def logLevels : List String := ["TRACE", "DEBUG", "INFO", "WARN", "WARNING", "ERROR"]

/-- What is said of a log level that is none. -/
def levelWarning (level? : Option String) : String :=
  match level?.filter fun level => !logLevels.contains (Text.upper level) with
  | some level => "Warning: Unknown log-level '" ++ level ++ "', defaulting to INFO\n"
  | none => ""

/-- Makes the log file and its directory; gives the files, or why that fails. -/
def prepareLog (env : Environment) (files : Files.Tree) : Except (List String) Files.Tree :=
  let file := Settings.logPath env
  match files.makeDirectories ((Files.parentPath? file).getD ".") with
  | .error e => .error ["Failed to setup logging", "Failed to create log directory", e.message]
  | .ok files =>
    match files.write file .empty with
    | .error e => .error ["Failed to setup logging", "Failed to create log file", e.message]
    | .ok files => .ok files

/-! ## Commands -/

/-- The template: what is given, or else the text of a file, or else the input. -/
def readTemplate (files : Files.Tree) (input : String) (template file : Option String) :
    Except (List String) String :=
  match template, file with
  | some text, _ => .ok text
  | none, some path =>
    match files.readText path with
    | .ok text => .ok text
    | .error e => .error ["Failed to read template " ++ path, e.message]
  | none, none => .ok input

/-- The context that a rendering starts with. -/
def seedContext (seeds : List (String × String)) (selectedFiles : Option String) : Context :=
  let ctx : Context := Dict.ofList (seeds.map fun (key, value) => (key, Json.text value))
  match selectedFiles with
  | some paths => ctx.insert Context.selectedFilesKey (.text paths)
  | none => ctx

/-- Renders a template. -/
def render (host : Host) (settings : Settings) (template : String) (seed : Context)
    (showContext : Bool) (m : Machine) : Report × Machine :=
  match Machine.onFiles (Store.prepare settings.storePath) m with
  | .error e m => (.failed [e.message], m)
  | .ok _ m =>
    let r := Engine.render (Custom.directives settings.custom) (Catalog.builtin host)
      settings.evaluationLimit template seed m
    let shown := if showContext then "Context:\n" ++ (Json.ofDict r.context).indented ++ "\n" else ""
    (⟨0, r.text ++ "\n", shown⟩, r.state)

/-- All directives with their tiers, the configured ones first. -/
def listing (host : Host) (settings : Settings) : List (Tier × Directives.Builtin) :=
  (Custom.directives settings.custom).map (Tier.custom, ·) ++ Catalog.entries host

/-- What is said of a directive in brackets. -/
def remarks (d : Directives.Builtin) : String :=
  let parts := (if d.constant then ["constant"] else []) ++
    (if d.dependencies.isEmpty then [] else ["after " ++ ", ".intercalate d.dependencies])
  if parts.isEmpty then "" else " [" ++ "; ".intercalate parts ++ "]"

/-- The line of a directive in a listing. -/
def listingLine (d : Directives.Builtin) : String :=
  "  " ++ Tools.padded 22 d.name ++ " " ++ d.description ++ remarks d ++ "\n"

/-- A listing of directives, each tier under its name. -/
def listingText (previous : Option Tier) : List (Tier × Directives.Builtin) → String
  | [] => ""
  | (tier, d) :: rest =>
    (if previous = some tier then "" else "\n" ++ tier.name ++ "\n") ++ listingLine d ++
      listingText (some tier) rest

/-- A directive as a value. -/
def directiveJson (tier : Tier) (d : Directives.Builtin) : Json :=
  .object [("name", d.name), ("tier", tier.name), ("description", d.description),
    ("resultKeys", .list (d.resultKeys.map .text)),
    ("dependencies", .list (d.dependencies.map .text)), ("constant", .bool d.constant)]

/-- Lists the directives. -/
def directives (host : Host) (settings : Settings) (format : Format) : Report :=
  let entries := listing host settings
  match format with
  | .text => .done (listingText none entries)
  | .json => .done ((Json.list (entries.map fun (tier, d) => directiveJson tier d)).indented ++ "\n")

/-- The script that is given, or that of the file that is given. -/
def readScript (files : Files.Tree) (script : String) : Except (List String) String :=
  if files.isFile script then
    match files.readText script with
    | .ok text => .ok text
    | .error e => .error ["Failed to read action script " ++ script, e.message]
  else .ok script

/-- Runs a script on a response; a failure can be put on the clipboard. -/
def action (host : Host) (script response : String) (copyError : Bool) (m : Machine) :
    Report × Machine :=
  match readScript m.files script with
  | .error texts => (.failed texts, m)
  | .ok script =>
    match Automation.runAction script response with
    | .ok output => (.done (if output.isEmpty then "" else output ++ "\n"), m)
    | .error failure =>
      let said := failure.title ++ "\n" ++ failure.cause.message ++ "\n"
      if copyError then
        match Desktop.writeClipboard host failure.details m with
        | .ok _ m => (⟨1, "", said ++ "Error copied to clipboard\n"⟩, m)
        | .error e m => (⟨1, "", said ++ "Could not copy error: " ++ e.message ++ "\n"⟩, m)
      else (⟨1, "", said⟩, m)

/-! ## The program -/

/-- Carries a command out. -/
def perform (s : Surroundings) (settings : Settings) (input : String) (command : Command)
    (m : Machine) : Report × Machine :=
  let host := s.host settings
  match command with
  | .render template file seeds selectedFiles showContext =>
    match readTemplate m.files input template file with
    | .error texts => (.failed texts, m)
    | .ok template => render host settings template (seedContext seeds selectedFiles) showContext m
  | .directives format => (directives host settings format, m)
  | .action script response copyError => action host script response copyError m

/-- Carries a request out. -/
def answer (s : Surroundings) (input : String) (request : Request) (m : Machine) :
    Report × Machine :=
  let env := m.environment
  let level := request.logLevel.or (Settings.loadLogLevel env m.files request.config)
  match prepareLog env m.files with
  | .error texts => (.failed texts, m)
  | .ok files =>
    let m := { m with files := files }
    let warning := levelWarning level
    match Settings.load env m.files request.config with
    | .error e =>
      let path := request.config.getD ""
      ((Report.failed ("Failed to load configuration" :: e.messages path)).after warning, m)
    | .ok settings =>
      let (report, m) := perform s settings input request.command m
      (report.after warning, m)

/-- Runs the program on a command line and an input. -/
def run (s : Surroundings) (arguments : List String) (input : String) (m : Machine) :
    Report × Machine :=
  let m := startOn m
  match read arguments with
  | .ok request => answer s input request m
  | .error .version => (.done ("ph " ++ version ++ "\n"), m)
  | .error .help => (.done (Tools.afterHelp s.runner m), m)
  | .error _ => (⟨2, "", "error: the arguments cannot be used\n"⟩, m)

end Stencil.Program.Templates
