import Stencil.Settings.Loading
import Stencil.Yaml.Writer

/-!
# The settings of the store program

The program that works on the store has one setting, the path of the store file.  Its standard files
are tried in order, the one of the user first, and the first there is must be good.
-/

namespace Stencil.Settings.StorePath

/-- The name of the setting. -/
def key : String := "store-path"

/-- Reads the setting from the text of a document. -/
def read? (standard : String) (text : String) : Option String := do
  sole? key text? standard (← Yaml.read? text)

/-- The paths of the standard files. -/
def standardPaths (env : Environment) : List String :=
  (env.configFolder?.map fun folder =>
      Files.joinPath folder (Files.joinPath "varstore" "config.yml")).toList ++ ["varstore.yml"]

/-- Reads the setting: from a named file, or from the first standard file there is. -/
def load (env : Environment) (files : Files.Tree) (named : Option String) :
    Except LoadFailure String :=
  let standard := defaultStorePath env
  match named.or ((standardPaths env).find? files.exists?) with
  | some path => readFile (read? standard) files path
  | none => .ok standard

/-- Writes the setting to a file. -/
def save (path : String) (files : Files.Tree) (file : String) : Except Files.Failure Files.Tree :=
  files.write file (Yaml.entryText key path).toUTF8

end Stencil.Settings.StorePath
