import Stencil.Store.Backend
import Stencil.Files.Tree
import Stencil.Json.Parser
import Stencil.Json.Printer
import Stencil.Text.Blank

/-!
# The store in a file

The items are one JSON object of strings in a file.  Every operation opens the file, which makes it
if it is missing, and reads it anew; a writing one puts the whole object back.  A file of blanks
holds no items.  A file that cannot be read as an object fails the operation and stays as it is.
-/

namespace Stencil.Store

/-- The content of the store file, or nothing while there is no file. -/
abbrev FileState := Option ByteArray

/-- The items of an object of strings. -/
def itemsOf? : Json → Option Items
  | .record fields =>
    (fields.mapM fun e => (Json.text? e.2).map (e.1, ·)).map Dict.ofList
  | _ => none

/-- The items a content stands for. -/
def decodeItems (content : ByteArray) : Except Failure Items :=
  match String.fromUTF8? content with
  | none => .error .notText
  | some s =>
    if Text.isBlankText s then .ok Dict.empty
    else match (Json.parseAsWritten? s).bind itemsOf? with
      | some items => .ok items
      | none => .error .malformedFile

/-- The content that stands for items. -/
def encodeItems (items : Items) : ByteArray := (Json.indentedStrings items).toUTF8

/-- Reads the items and gives what a function makes of them. -/
def readingItems {α : Type} (f : Items → α) : Action Failure FileState α := fun file =>
  let content := file.getD .empty
  match decodeItems content with
  | .ok items => .ok (f items) (some content)
  | .error e => .error e (some content)

/-- Reads the items and writes what a function makes of them. -/
def changingItems (f : Items → Items) : Action Failure FileState Unit := fun file =>
  let content := file.getD .empty
  match decodeItems content with
  | .ok items => .ok () (some (encodeItems (f items)))
  | .error e => .error e (some content)

/-- The backend that keeps its items in a file. -/
def Backend.file : Backend FileState where
  getItem key := readingItems (·.get? key)
  setItem key value := changingItems (·.insert key value)
  removeItem key := changingItems (·.erase key)
  keys := readingItems (·.keys)

/-! ## The file among others -/

/-- Opens the file at a path: its content, or nothing if it has yet to be made. -/
def openFile (files : Files.Tree) (path : String) : Except Failure FileState :=
  match files.locate path with
  | .error _ => .error (.cannotOpen path)
  | .ok key =>
    match files.entry? key with
    | some (.file content _) => .ok (some content)
    | some .sink | some .zeros => .ok (some .empty)
    | some .directory | some (.program _) => .error (.cannotOpen path)
    | none =>
      match files.parentExists key with
      | .ok _ => if path.endsWith "/" then .error (.cannotOpen path) else .ok none
      | .error _ => .error (.cannotOpen path)

/-- Puts a file state back at a path. -/
def closeFile (files : Files.Tree) (path : String) : FileState → Files.Tree
  | none => files
  | some content =>
    match files.write path content with
    | .ok files => files
    | .error _ => files

/-- Runs an operation on the file at a path. -/
def onFile {α : Type} (path : String) (act : Action Failure FileState α) :
    Action Failure Files.Tree α := fun files =>
  match openFile files path with
  | .error e => .error e files
  | .ok file =>
    match act file with
    | .ok a file => .ok a (closeFile files path file)
    | .error e file => .error e (closeFile files path file)

/-- The backend in the file at a path. -/
def Backend.atPath (path : String) : Backend Files.Tree where
  getItem key := onFile path (Backend.file.getItem key)
  setItem key value := onFile path (Backend.file.setItem key value)
  removeItem key := onFile path (Backend.file.removeItem key)
  keys := onFile path Backend.file.keys

/-- Makes the directory of a store file. -/
def prepare (path : String) : Action Failure Files.Tree Unit := fun files =>
  match Files.parentPath? path with
  | none => .ok () files
  | some directory =>
    match files.makeDirectories directory with
    | .ok files => .ok () files
    | .error _ => .error .cannotMakeDirectory files

end Stencil.Store
