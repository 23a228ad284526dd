import Stencil.Files.Tree

/-!
# Environment variables

What a program learns from the variables it is started with: where a user's folders are, and which
language they prefer.
-/

namespace Stencil

/-- Environment variables. -/
abbrev Environment := Dict String

namespace Environment

/-- The value of a variable that is set and not empty. -/
def filled? (env : Environment) (name : String) : Option String :=
  (env.get? name).filter (!·.isEmpty)

/-- The home directory. -/
def home? (env : Environment) : Option String := env.filled? "HOME"

/-- A user's folder: the one a variable names, if that is an absolute path, or else a standard one
in the home directory. -/
def folder? (env : Environment) (name standard : String) : Option String :=
  match (env.get? name).filter Files.isAbsolute with
  | some path => some path
  | none => env.home?.map fun home => Files.joinPath home standard

/-- Where configuration files are. -/
def configFolder? (env : Environment) : Option String := env.folder? "XDG_CONFIG_HOME" ".config"

/-- Where data files are. -/
def dataFolder? (env : Environment) : Option String := env.folder? "XDG_DATA_HOME" ".local/share"

/-- A file among the data files of this program; without a data folder, in the working directory. -/
def dataFile (env : Environment) (path : String) : String :=
  Files.joinPath (env.dataFolder?.getD ".") (Files.joinPath "placeholders" path)

/-- A path with a leading tilde replaced by the home directory. -/
def expandHome (env : Environment) (path : String) : String :=
  match env.home? with
  | none => path
  | some home =>
    match path.toList with
    | ['~'] => home
    | '~' :: '/' :: rest => Files.joinPath home (.ofList rest)
    | _ => path

/-- Whether a locale is the one that says nothing about a language. -/
def isNeutralLocale (locale : String) : Bool := locale.isEmpty || locale == "C" || locale == "POSIX"

/-- The language tag of a locale: the part before the first dot, with hyphens for underscores. -/
def languageTag (locale : String) : String :=
  .ofList ((locale.toList.takeWhile (· ≠ '.')).map fun c => if c = '_' then '-' else c)

/-- The preferred language: that of the first locale variable that names one.  When none does, a
locale variable that is set still counts, but for the C locale, which stands for `en-US`. -/
def language (env : Environment) : String :=
  match ["LC_ALL", "LC_MESSAGES", "LANG"].filterMap env.get? |>.find? (!isNeutralLocale ·) with
  | some locale => languageTag locale
  | none =>
    match ["LC_ALL", "LANG"].findSome? env.filled? with
    | some locale => if locale == "C" then "en-US" else languageTag locale
    | none => "en-US"

end Environment

end Stencil
