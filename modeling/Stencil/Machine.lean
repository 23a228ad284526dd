import Stencil.Process.Basic
import Stencil.Settings
import Stencil.Store.File
import Stencil.Store.Variables

/-!
# Machines and hosts

A machine is what directives look at and change: files, environment, clock, the items of the store,
the clipboard.  A host is what stays fixed while they run: the settings, what the desktop shows,
what the network answers, and what runs programs.
-/

namespace Stencil

/-! ## Machines -/

/-- An attempt to fetch a page. -/
structure Exchange where
  /-- The URL. -/
  url : String
  /-- The status of the answer, if there was one. -/
  status : Option Nat
  deriving DecidableEq, Repr

/-- What directives look at and change. -/
structure Machine where
  /-- The files. -/
  files : Files.Tree
  /-- The environment variables. -/
  environment : Environment
  /-- The time. -/
  now : Moment
  /-- The items of a store that is kept in memory. -/
  items : Store.Items
  /-- The text on the clipboard. -/
  clipboard : Option String
  /-- How often the clipboard was read. -/
  clipboardReads : Nat
  /-- The search path of the login shell, once it has been asked for. -/
  loginPath : Option (Option String)
  /-- The attempts to fetch pages, the latest first. -/
  exchanges : List Exchange
  /-- Where the next random bits come from. -/
  entropy : Nat
  /-- How long programs have run, in milliseconds. -/
  elapsed : Nat

/-! ## Hosts -/

/-- Who uses the machine, and what it is called. -/
structure Identity where
  /-- The login name. -/
  user : String
  /-- The name on the network. -/
  hostname : String
  /-- The name shown to users. -/
  computerName : String
  deriving DecidableEq, Repr, Inhabited

/-- An application. -/
structure Application where
  /-- Its name. -/
  name : String
  /-- Its path. -/
  path : String
  deriving DecidableEq, Repr

/-- A desktop whose state is known. -/
structure FixedDesktop where
  /-- The selected text. -/
  selectedText : Option String
  /-- The selected files. -/
  selectedFiles : List String
  /-- The application in front. -/
  application : Option Application
  /-- The URL of the browser. -/
  url : Option String
  /-- What the user typed. -/
  input : Option String
  deriving DecidableEq, Repr, Inhabited

/-- Where the state of the desktop comes from. -/
inductive Desktop where
  /-- It is known; the clipboard is the machine's. -/
  | fixed (state : FixedDesktop)
  /-- The tools of the machine are asked. -/
  | system
  deriving DecidableEq, Repr

/-- What the network answers. -/
inductive WebAnswer where
  /-- A page: its status, its announced length if there is one, and its text. -/
  | page (status : Nat) (announced : Option Nat) (body : String)
  /-- Nothing. -/
  | unreachable (reason : String)
  deriving DecidableEq, Repr

/-- Where the store is kept. -/
inductive Place where
  /-- Among the machine's items. -/
  | memory
  /-- In a file. -/
  | file (path : String)
  deriving DecidableEq, Repr

/-- The backend at a place. -/
def Place.backend : Place → Store.Backend Machine
  | memory => Store.Backend.memory.on Machine.items fun items m => { m with items := items }
  | file path => (Store.Backend.atPath path).on Machine.files fun files m => { m with files := files }

/-- What stays fixed while directives run. -/
structure Host where
  /-- How scripts are run. -/
  scripts : Settings.Scripts
  /-- How the network is used. -/
  network : Settings.Network
  /-- Where the state of the desktop comes from. -/
  desktop : Desktop
  /-- Where the store is kept. -/
  place : Place
  /-- What the network answers to a request for a URL. -/
  web : String → WebAnswer
  /-- What runs programs. -/
  runner : Process.Runner
  /-- Who uses the machine. -/
  identity : Identity

/-- The backend of the store. -/
def Host.backend (host : Host) : Store.Backend Machine := host.place.backend

/-! ## Actions -/

/-- An action with its failures seen as others. -/
def Action.mapError {ε ε' σ α : Type} (f : ε → ε') (act : Action ε σ α) : Action ε' σ α := fun s =>
  match act s with
  | .ok a s => .ok a s
  | .error e s => .error (f e) s

/-- A machine whose clock, clipboard and store are as given, and to which nothing has happened. -/
def Machine.start (files : Files.Tree) (environment : Environment) (now : Moment) (items : Store.Items)
    (clipboard : Option String) (entropy : Nat) : Machine :=
  ⟨files, environment, now, items, clipboard, 0, none, [], entropy, 0⟩

/-- An action on the files of a machine. -/
def Machine.onFiles {ε α : Type} (act : Action ε Files.Tree α) : Action ε Machine α := fun m =>
  match act m.files with
  | .ok a files => .ok a { m with files := files }
  | .error e files => .error e { m with files := files }

end Stencil
