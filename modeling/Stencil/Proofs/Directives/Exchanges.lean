import Stencil.Proofs.Catalog
import Stencil.Proofs.Directives.Variables
import Stencil.Proofs.Sandbox.Frame

/-!
# Only Fetches Exchange Anything

The exchanges of a machine are its attempts to fetch pages.  No built-in directive makes any but by
`Web.fetch`, not even through a sandboxed script, which can only have other directives evaluated.  So
where a fetch leaves the exchanges, they do.

Main statement: `offline_builtin`.
-/

namespace Stencil.Directives

open Store Template Catalog

variable {ε α : Type}

/-! ## §1 The machine -/

/-- Whether an action attempts to fetch no page. -/
abbrev Offline (act : Action ε Machine α) : Prop := Leaves Machine.exchanges act

theorem offline_runIn (host : Host) (env : Environment) (command : Process.Command)
    (limit : Option Nat) : Offline (Scripts.runIn host env command limit) := by
  intro m
  unfold Scripts.runIn
  dsimp only
  split
  · rfl
  · rfl

theorem offline_run (host : Host) (program : String) (arguments : List String) :
    Offline (Scripts.run host program arguments) :=
  Leaves.bind .get fun _ => offline_runIn host _ _ _

theorem offline_loginPath (host : Host) : Offline (Scripts.loginPath host) := by
  have hask : Offline (Scripts.askLoginPath host) := by
    intro m
    have hrun := offline_runIn host m.environment
      ⟨host.scripts.loginShell, ["-l", "-c", "printf %s \"$PATH\""]⟩ (some Scripts.loginLimit) m
    unfold Scripts.askLoginPath
    split
    · rename_i hr
      rwa [hr] at hrun
    · rename_i hr
      rwa [hr] at hrun
  refine Leaves.bind .get fun m => ?_
  split
  · exact .pure _
  · exact hask.bind fun path => Leaves.bind (.modify fun _ => rfl) fun _ => .pure path

theorem offline_shell (host : Host) (script : String) (shell? : Option String) :
    Offline (Scripts.shell host script shell?) := by
  unfold Scripts.shell
  dsimp only
  split
  · exact (offline_loginPath host).bind fun _ => Leaves.bind .get fun _ => offline_runIn host _ _ _
  · exact Leaves.bind (.pure none) fun _ => Leaves.bind .get fun _ => offline_runIn host _ _ _

/-! ## §2 The desktop -/

theorem offline_known (feature : String) (value : Option α) :
    Offline (Desktop.known feature value) := by
  cases value with
  | none => exact .throw _
  | some a => exact .pure a

theorem offline_clipboardText (host : Host) : Offline (Desktop.clipboardText host) := by
  unfold Desktop.clipboardText
  split
  · exact Leaves.bind (.modify fun _ => rfl) fun _ => Leaves.bind .get fun _ => offline_known _ _
  · -- `xclip` is run on the machine that `wl-paste` left when it failed.
    intro m
    have hfirst := offline_run host "wl-paste" ["--no-newline"] m
    dsimp only
    split
    · rename_i hr
      rwa [hr] at hfirst
    · rename_i e m' hr
      rw [hr] at hfirst
      exact ((offline_run host "xclip" ["-selection", "clipboard", "-o"]).mapError _ m').trans hfirst

theorem offline_browserUrl (host : Host) (app : String) : Offline (Desktop.browserUrl host app) := by
  unfold Desktop.browserUrl
  split
  · exact offline_known _ _
  · split
    · exact (offline_run host _ _).mapError _
    · exact .throw _

theorem offline_application (host : Host) : Offline (Desktop.application host) := by
  unfold Desktop.application
  split
  · exact offline_known _ _
  · exact .throw _

theorem offline_selection (host : Host) (ctx : Context) : Offline (selection host ctx) := by
  unfold selection
  split
  · exact .pure _
  · refine Leaves.mapError ?_ _
    unfold Desktop.selectedFiles
    split
    · exact .pure _
    · exact .throw _

theorem offline_desktop (host : Host) : ∀ d ∈ desktop host, ∀ token ctx,
    Offline (d.apply token ctx) := by
  refine OnDesktop.forall ?_
  constructor
  case clipboardText =>
    exact fun _ _ => Leaves.bind ((offline_clipboardText host).mapError _) fun _ => .pure _
  case selectedText =>
    refine fun _ _ => Leaves.bind (Leaves.mapError ?_ _) fun _ => .pure _
    unfold Desktop.selectedText
    split
    · exact offline_known _ _
    · exact .throw _
  case selectedFiles =>
    exact fun _ ctx => Leaves.bind (offline_selection host ctx) fun _ => .pure _
  case selectedFileContents =>
    exact fun _ ctx =>
      Leaves.bind (offline_selection host ctx) fun _ => Leaves.bind .get fun _ => .pure _
  case currentApplication =>
    exact fun _ _ => Leaves.bind ((offline_application host).mapError _) fun _ => .pure _
  case currentUrl =>
    refine fun _ ctx => Leaves.bind ?_ fun app =>
      Leaves.bind ((offline_browserUrl host app).mapError _) fun _ => .pure _
    unfold applicationName
    split
    · exact .pure _
    · exact Leaves.bind ((offline_application host).mapError _) fun _ => .pure _
  case currentTabText => exact fun _ _ => .throw _
  case input =>
    intro token ctx
    unfold input shared
    dsimp only
    split
    · exact .pure _
    · refine Leaves.bind (Leaves.mapError ?_ _) fun _ => .pure _
      unfold Desktop.userInput
      split
      · exact offline_known _ _
      · exact .throw _
  case seeded =>
    intro name description token ctx
    unfold seeded shared
    dsimp only
    split
    · exact .pure _
    · exact .throw _

/-! ## §3 Variables and values -/

theorem offline_variable (op : VariableOperation) (host : Host) (token : Token) (ctx : Context) :
    Offline ((op.directive host).apply token ctx) := by
  have hperform (name body : String) : Offline (op.perform host.backend name body) := by
    have hbackend : host.backend.Apart Machine.exchanges :=
      host.place.apart (fun _ _ => rfl) fun _ _ => rfl
    rw [op.perform_eq]
    exact (hbackend.perform _).bind fun _ => .pure _
  refine Leaves.bind ?_ fun _ => .pure _
  unfold VariableOperation.evaluate
  split
  · exact (hperform _ _).mapError _
  · exact (hperform _ _).mapError _
  · exact .throw _

theorem offline_system (value : SystemValue) (host : Host) (token : Token) (ctx : Context) :
    Offline ((value.directive host).apply token ctx) := by
  have hexcept (result : Except Failure String) :
      Offline (Action.ofExcept result : Action Failure Machine String) := by
    cases result with
    | ok text => exact .pure text
    | error e => exact .throw e
  refine Leaves.bind (Leaves.bind .get fun m => ?_) fun text => .pure _
  dsimp only
  split
  · exact hexcept _
  · exact hexcept _
  · exact hexcept _
  · exact .pure _
  · split
    · exact .pure _
    · exact .throw _
  · exact .pure _
  · exact .pure _
  · exact Leaves.bind .get fun _ => Leaves.bind (.modify fun _ => rfl) fun _ => .pure _
  · exact .pure _

/-! ## §4 Fetches and scripts -/

section Fetching

variable {host : Host} (hfetch : ∀ url, Offline (Web.fetch host url))
include hfetch

theorem offline_fetchJson (url : String) : Offline (Web.fetchJson host url) := by
  refine (hfetch url).bind fun body => ?_
  split
  · exact .pure _
  · exact .throw _

theorem offline_locate (ctx : Context) : Offline (locate host ctx) := by
  unfold locate
  dsimp only
  split
  on_goal 1 => refine Leaves.bind (.pure _) fun raw => ?_
  on_goal 2 => refine (offline_fetchJson hfetch _).bind fun raw => ?_
  all_goals
    split
    · exact .pure _
    · exact .throw _

/-- Where a fetch leaves the exchanges, the directives that look something up do. -/
theorem offline_informational : ∀ d ∈ informational host, ∀ token ctx,
    Offline (d.apply token ctx) := by
  refine OnInformational.forall ?_
  constructor
  case desktop => exact offline_desktop host
  case system => exact fun value => offline_system value host
  case calendar => exact fun _ _ _ _ => .throw _
  case location => exact fun _ ctx => (offline_locate hfetch ctx).bind fun _ => .pure _
  case forecast =>
    refine fun f token ctx => (offline_locate hfetch ctx).bind fun place =>
      (offline_fetchJson hfetch _).bind fun answer => ?_
    split
    · exact .throw _
    · exact .pure _

theorem offline_beforeScripts : ∀ d ∈ beforeScripts host, ∀ token ctx,
    Offline (d.apply token ctx) := by
  refine OnText.forall ?_
  constructor
  case choice =>
    -- A choice that finds no selection goes on without one, on the machine that the search left.
    refine fun choice token ctx => Leaves.bind (fun m => ?_) fun paths => .pure _
    have hselection := offline_selection host ctx m
    unfold selectionOrNone
    split
    · rename_i hr
      rwa [hr] at hselection
    · rename_i hr
      rwa [hr] at hselection
  case file =>
    intro token ctx
    unfold file plain
    dsimp only
    split
    · exact .throw _
    · refine Leaves.bind .get fun m => ?_
      split
      · exact .pure _
      · exact .throw _
  case url =>
    intro token ctx
    unfold url plain
    dsimp only
    split
    · exact .throw _
    · split
      · exact .throw _
      · exact (hfetch _).bind fun _ => .pure _
  case interactive => exact fun _ _ _ _ => .throw _

end Fetching

section Scripts

variable {directives : List Builtin}
  (hdirectives : ∀ d ∈ directives, ∀ token ctx, Offline (d.apply token ctx))
include hdirectives

/-- A call of a script leaves the exchanges if the directives do that it can stand for. -/
theorem exchanges_perform (ctx : Context) (call : HostCall) (m : Machine) :
    (call.perform directives ctx m).2.exchanges = m.exchanges := by
  unfold HostCall.perform
  split
  · rfl
  · rename_i token htoken
    split
    · rfl
    · rename_i d hfind
      have happly := hdirectives d (List.mem_of_find?_eq_some hfind) token ctx m
      split
      · rename_i hr
        rwa [hr] at happly
      · rename_i hr
        rwa [hr] at happly

theorem offline_runSandboxed (host : Host) (ctx : Context) (script : String) :
    Offline (runSandboxed host directives ctx script) := by
  intro m
  -- What a script is offered are calls of directives, and nothing else.
  have hoffer : (HostCall.offer directives ctx).Keeps Machine.exchanges := by
    intro f arguments act hact world
    obtain ⟨call, -, rfl⟩ := Option.map_eq_some_iff.1 hact
    exact exchanges_perform hdirectives ctx call world
  have hrun := Sandbox.evaluate_leaves (sandboxLimits host.scripts) hoffer script m
  unfold runSandboxed
  split
  all_goals
    rename_i hr
    rwa [hr] at hrun

/-- A script leaves the exchanges, whatever runs it, if the directives do that it can call. -/
theorem offline_scripts (host : Host) : ∀ d ∈ scripts host directives, ∀ token ctx,
    Offline (d.apply token ctx) := by
  have hrun (ctx : Context) (target : Scripts.Target) (script : String) (program : Option String) :
      Offline (runScript host directives ctx target script program) := by
    cases target with
    | automation => exact offline_run host _ _
    | automationJavaScript => exact offline_run host _ _
    | shell => exact offline_shell host script program
    | sandbox => exact offline_runSandboxed hdirectives host ctx script
  refine forall_mem_scripts fun name target description token ctx =>
    Leaves.bind ?_ fun text => .pure _
  unfold scriptText
  dsimp only
  split
  · exact .throw _
  · split
    · exact .throw _
    · exact .throw _
    · exact (hrun _ _ _ _).mapError _
    · split
      · exact .throw _
      · exact (hrun _ _ _ _).mapError _

end Scripts

/-! ## §5 All directives -/

section Fetching

variable {host : Host} (hfetch : ∀ url, Offline (Web.fetch host url))
include hfetch

theorem offline_callable : ∀ d ∈ callable host, ∀ token ctx, Offline (d.apply token ctx) := by
  intro d hd token ctx
  simp only [callable, List.mem_append] at hd
  rcases hd with ((hd | hd) | hd) | hd
  · obtain ⟨op, -, rfl⟩ := List.mem_map.1 hd
    exact offline_variable op host token ctx
  · exact offline_informational hfetch d hd token ctx
  · exact offline_beforeScripts hfetch d hd token ctx
  · -- A script that a script runs can call nothing.
    have hnone : ∀ d ∈ ([] : List Builtin), ∀ token ctx, Offline (d.apply token ctx) := by simp
    exact offline_scripts hnone host d hd token ctx

/-- **Only fetches exchange anything.**  Where a fetch leaves the exchanges of a machine, every built-in
directive does, for every token and in every context. -/
theorem offline_builtin : ∀ d ∈ builtin host, ∀ token ctx, Offline (d.apply token ctx) := by
  refine OnBuiltin.forall ⟨fun op => offline_variable op host, offline_informational hfetch,
    OnLow.forall ?_⟩
  constructor
  case text => exact offline_beforeScripts hfetch
  case scripts => exact offline_scripts (offline_callable hfetch) host
  case ignore => exact fun _ _ => .pure _
  case cutoff =>
    intro token ctx
    unfold cutoff plain
    dsimp only
    split
    · exact .pure _
    · exact .throw _

end Fetching

end Stencil.Directives
