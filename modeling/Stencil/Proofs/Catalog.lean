import Stencil.Catalog

/-!
# The Built-in Directives

What the built-in directives are called, in the order of evaluation, and what they depend on.  What
is to hold of all directives of a tier is shown family by family, where a family is one definition with
parameters.

Main statements: `names_builtin`, `nodup_builtinNames` and `dependencies_builtin`.
-/

namespace Stencil.Catalog

open Directives

/-! ## §1 Names -/

/-- The operations that change variables and counters. -/
def changing : List VariableOperation := [.set, .reset, .delete, .increment, .decrement]

/-- The operations that read variables. -/
def reading : List VariableOperation := [.get, .list]

/-- What changes variables comes before what reads them. -/
theorem all_eq : VariableOperation.all = changing ++ reading := rfl

/-- The names of the directives on variables. -/
def highNames : List String := VariableOperation.all.map (·.name)

/-- The names of the directives that look something up. -/
def informationalNames : List String :=
  ["clipboardText", "selectedText", "selectedFiles", "selectedFileContents", "currentApplication",
    "currentURL", "currentTabText", "input", "previousCommand", "previousPrompt",
    "previousResponse"] ++ SystemValue.all.map (·.name) ++ calendarWindows.map (·.1) ++
    ["location", "currentWeather", "weekWeather"]

/-- The names of the directives on text that is already there. -/
def lowNames : List String :=
  Flow.choices.map (·.name) ++ ["file", "url", "alert", "dialog", "say"] ++
    scriptTargets.map (·.1) ++ ["ignore", "cutoff"]

/-- The names of all built-in directives. -/
def builtinNames : List String := highNames ++ informationalNames ++ lowNames

/-- The built-in directives are those of the tiers, one after the other. -/
theorem builtin_eq (host : Host) : builtin host = high host ++ informational host ++ low host := by
  simp [builtin, entries, tiers, ofTier, Function.comp_def]

theorem names_high (host : Host) : (high host).map (·.name) = highNames := List.map_map

theorem names_informational (host : Host) :
    (informational host).map (·.name) = informationalNames := rfl

theorem names_low (host : Host) : (low host).map (·.name) = lowNames := by
  have hflow : (Flow.choices.map (flow host)).map (·.name) = Flow.choices.map (·.name) :=
    List.map_map
  have hscripts : (scripts host (callable host)).map (·.name) = scriptTargets.map (·.1) :=
    List.map_map
  simp only [low, beforeScripts, List.map_append, hflow, hscripts, lowNames, List.append_assoc]
  rfl

/-- The built-in directives have these names, in this order. -/
theorem names_builtin (host : Host) : (builtin host).map (·.name) = builtinNames := by
  rw [builtin_eq, List.map_append, List.map_append, names_high, names_informational, names_low,
    builtinNames]

theorem nodup_builtinNames : builtinNames.Nodup := by decide +kernel

theorem find?_of_mem {σ : Type} {ds : List (Directive σ)} (hnd : (ds.map (·.name)).Nodup)
    {d : Directive σ} (hd : d ∈ ds) : Directive.find? ds d.name = some d := by
  induction ds with
  | nil => simp at hd
  | cons e ds ih =>
    rw [List.map_cons, List.nodup_cons] at hnd
    unfold Directive.find?
    rcases List.mem_cons.1 hd with rfl | hd
    · simp
    · have hne : e.name ≠ d.name := fun heq => hnd.1 (heq ▸ List.mem_map_of_mem hd)
      rw [List.find?_cons_of_neg (by simpa using hne)]
      exact ih hnd.2 hd

theorem nodup_builtin (host : Host) : ((builtin host).map (·.name)).Nodup := by
  rw [names_builtin]
  exact nodup_builtinNames

theorem eq_of_name {host : Host} {d d' : Builtin} (hd : d ∈ builtin host) (hd' : d' ∈ builtin host)
    (h : d.name = d'.name) : d = d' := by
  have hfind := find?_of_mem (nodup_builtin host) hd
  rw [h, find?_of_mem (nodup_builtin host) hd'] at hfind
  exact (Option.some.inj hfind).symm

theorem mem_builtin_variable (op : VariableOperation) (host : Host) :
    op.directive host ∈ builtin host := by
  have hop : op ∈ VariableOperation.all := by cases op <;> decide
  rw [builtin_eq, List.append_assoc]
  exact List.mem_append_left _ (List.mem_map_of_mem hop)

theorem mem_builtin_of_informational {host : Host} {d : Builtin} (hd : d ∈ informational host) :
    d ∈ builtin host := by
  rw [builtin_eq]
  exact List.mem_append_left _ (List.mem_append_right _ hd)

/-! ## §2 Families -/

section Families

variable {host : Host} {directives : List Builtin} {P : Builtin → Prop}

/-- What is to be shown of the directives on the desktop. -/
structure OnDesktop (host : Host) (P : Builtin → Prop) : Prop where
  clipboardText : P (clipboardText host)
  selectedText : P (selectedText host)
  selectedFiles : P (selectedFiles host)
  selectedFileContents : P (selectedFileContents host)
  currentApplication : P (currentApplication host)
  currentUrl : P (currentUrl host)
  currentTabText : P currentTabText
  input : P (input host)
  seeded : ∀ name description, P (seeded name description)

theorem OnDesktop.forall (h : OnDesktop host P) : ∀ d ∈ desktop host, P d := by
  simp only [desktop, List.forall_mem_cons, List.not_mem_nil, false_imp_iff, implies_true, and_true]
  exact ⟨h.clipboardText, h.selectedText, h.selectedFiles, h.selectedFileContents,
    h.currentApplication, h.currentUrl, h.currentTabText, h.input, h.seeded _ _, h.seeded _ _,
    h.seeded _ _⟩

/-- What is to be shown of the directives that look something up. -/
structure OnInformational (host : Host) (P : Builtin → Prop) : Prop where
  desktop : ∀ d ∈ desktop host, P d
  system : ∀ value : SystemValue, P (value.directive host)
  calendar : ∀ name description, P (shared name description [name] [] fun _ _ => needsMac name)
  location : P (location host)
  forecast : ∀ forecast : Forecast, P (forecast.directive host)

theorem OnInformational.forall (h : OnInformational host P) : ∀ d ∈ informational host, P d := by
  simp only [informational, Directives.calendar, List.forall_mem_append, List.forall_mem_map,
    List.forall_mem_cons, List.not_mem_nil, false_imp_iff, implies_true, and_true]
  exact ⟨⟨⟨h.desktop, fun value _ => h.system value⟩, fun window _ => h.calendar _ _⟩, h.location,
    h.forecast _, h.forecast _⟩

/-- What is to be shown of the directives on text that is already there, before the scripts. -/
structure OnText (host : Host) (P : Builtin → Prop) : Prop where
  choice : ∀ choice, P (flow host choice)
  file : P (file host)
  url : P (url host)
  interactive : ∀ name description, P (plain name description fun _ _ => needsMac name)

theorem OnText.forall (h : OnText host P) : ∀ d ∈ beforeScripts host, P d := by
  simp only [beforeScripts, Directives.interactive, List.forall_mem_append, List.forall_mem_map,
    List.forall_mem_cons, List.not_mem_nil, false_imp_iff, implies_true, and_true]
  exact ⟨⟨fun choice _ => h.choice choice, h.file, h.url⟩, h.interactive _ _, h.interactive _ _,
    h.interactive _ _⟩

theorem forall_mem_scripts (h : ∀ name target description,
    P (plain name description fun token ctx => do
      return .ofText (← scriptText host directives name target token ctx))) :
    ∀ d ∈ scripts host directives, P d := by
  rw [scripts, List.forall_mem_map]
  exact fun script _ => h _ _ _

/-- What is to be shown of the directives on text that is already there. -/
structure OnLow (host : Host) (P : Builtin → Prop) : Prop where
  text : ∀ d ∈ beforeScripts host, P d
  scripts : ∀ d ∈ scripts host (callable host), P d
  ignore : P ignore
  cutoff : P cutoff

theorem OnLow.forall (h : OnLow host P) : ∀ d ∈ low host, P d := by
  simp only [low, List.forall_mem_append, List.forall_mem_cons, List.not_mem_nil, false_imp_iff,
    implies_true, and_true]
  exact ⟨⟨h.text, h.scripts⟩, h.ignore, h.cutoff⟩

/-- What is to be shown of the built-in directives. -/
structure OnBuiltin (host : Host) (P : Builtin → Prop) : Prop where
  operation : ∀ op : VariableOperation, P (op.directive host)
  informational : ∀ d ∈ informational host, P d
  low : ∀ d ∈ low host, P d

theorem OnBuiltin.forall (h : OnBuiltin host P) : ∀ d ∈ builtin host, P d := by
  simp only [builtin_eq, high, List.forall_mem_append, List.forall_mem_map]
  exact ⟨⟨fun op _ => h.operation op, h.informational⟩, h.low⟩

end Families

/-! ## §3 Dependencies -/

theorem dependencies_high (host : Host) : ∀ d ∈ high host, d.dependencies = [] := by
  rw [high, List.forall_mem_map]
  exact fun _ _ => rfl

theorem dependencies_informational (host : Host) :
    ∀ d ∈ informational host, ∀ name ∈ d.dependencies, name = "currentApplication" := by
  intro d hd name hname
  have hall : (informational host).flatMap (·.dependencies) =
      ["currentApplication", "currentApplication"] := rfl
  have hmem : name ∈ (informational host).flatMap (·.dependencies) :=
    List.mem_flatMap.2 ⟨d, hd, hname⟩
  rw [hall] at hmem
  simpa using hmem

theorem dependencies_low (host : Host) : ∀ d ∈ low host, d.dependencies = [] :=
  OnLow.forall {
    text := OnText.forall ⟨fun _ => rfl, rfl, rfl, fun _ _ => rfl⟩
    scripts := forall_mem_scripts fun _ _ _ => rfl
    ignore := rfl
    cutoff := rfl }

/-- The only built-in directive that others depend on is `currentApplication`. -/
theorem dependencies_builtin (host : Host) :
    ∀ d ∈ builtin host, ∀ name ∈ d.dependencies, name = "currentApplication" := by
  refine OnBuiltin.forall ⟨fun op name hname => ?_, dependencies_informational host,
    fun d hd name hname => ?_⟩
  · exact absurd hname List.not_mem_nil
  · rw [dependencies_low host d hd] at hname
    exact absurd hname List.not_mem_nil

/-! ## §4 A host that stands still -/

/-- A host with a known desktop, without network and programs, whose store is among the items of the
machine. -/
def stillHost (desktop : FixedDesktop) : Host where
  scripts := default
  network := default
  desktop := .fixed desktop
  place := .memory
  web := fun _ => .unreachable ""
  runner := fun _ _ _ _ => .error .notFound
  identity := default

/-- A machine without files and with some items in its store. -/
def stillMachine (items : Store.Items) : Machine :=
  .start Dict.empty Dict.empty default items none 0

end Stencil.Catalog
