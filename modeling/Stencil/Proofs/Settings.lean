import Stencil.Settings.Loading

/-!
# The Log Level Before the Settings

The log level is read before the settings, and by a rule of its own.  Both take the file that is named.
Where none is, the settings are those of the first standard file that can be read, but the log level is
that of the first standard file there is, even if that one cannot be read.  So the level that is read
early is that of the settings unless the file of the project is there, gives nothing, and is passed over
for a file of the user that gives a level.

Main statements: `loadWith_none`, `logLevelWith_none` and `logLevelWith_eq_iff`.
-/

namespace Stencil.Settings

open Files

/-! ## §1 One file -/

section File

variable {α : Type} {decode : String → Option α} {files : Tree} {path : String}

/-- What a file gives, if it can be read. -/
def given? (decode : String → Option α) (files : Tree) (path : String) : Option α :=
  (readFile decode files path).toOption

theorem given?_eq_some_iff {settings : α} :
    given? decode files path = some settings ↔ readFile decode files path = .ok settings := by
  unfold given?
  cases readFile decode files path <;> simp [Except.toOption]

theorem given?_eq_none_iff :
    given? decode files path = none ↔ ∃ e, readFile decode files path = .error e := by
  unfold given?
  cases readFile decode files path <;> simp [Except.toOption]

theorem given?_of_not_exists (h : files.exists? path = false) : given? decode files path = none := by
  rw [given?_eq_none_iff]
  unfold Tree.exists? at h
  cases hfind : files.find path with
  | ok entry =>
    rw [hfind] at h
    exact absurd h (by simp)
  | error e =>
    have htext : files.readText path = .error e := by
      simp only [Tree.readText, Tree.read, hfind, bind, Except.bind]
    exact ⟨.unreadable e, by rw [readFile, htext]⟩

theorem exists_of_given? {settings : α} (h : given? decode files path = some settings) :
    files.exists? path = true := by
  cases hexists : files.exists? path with
  | true => rfl
  | false => exact absurd ((given?_of_not_exists hexists).symm.trans h) (by simp)

end File

/-! ## §2 The standard files -/

variable {decode : String → Option Settings} {files : Tree} {user? named : Option String}

theorem findSome?_filter {α β : Type} {p : α → Bool} {f : α → Option β}
    (h : ∀ a, p a = false → f a = none) (as : List α) :
    (as.filter p).findSome? f = as.findSome? f := by
  induction as with
  | nil => rfl
  | cons a as ih =>
    cases hp : p a with
    | true => rw [List.filter_cons_of_pos hp, List.findSome?_cons, List.findSome?_cons, ih]
    | false =>
      rw [List.filter_cons_of_neg (by simp [hp]), List.findSome?_cons, h a hp]
      exact ih

/-- Where no file is named, the settings are those of the first standard file that can be read: the one of
the project before the one of the user. -/
theorem loadWith_none (decode : String → Option Settings) (standard : Settings) (files : Tree)
    (user? : Option String) :
    loadWith decode standard files user? none =
      .ok (((given? decode files projectPath).or (user?.bind (given? decode files))).getD standard) := by
  have hfirst : (standardFiles files user?).findSome? (given? decode files) =
      (given? decode files projectPath).or (user?.bind (given? decode files)) := by
    rw [standardFiles, findSome?_filter fun _ => given?_of_not_exists, List.findSome?_cons]
    cases given? decode files projectPath with
    | some settings => rfl
    | none =>
      cases user? with
      | none => rfl
      | some path => cases hpath : given? decode files path <;> simp [hpath]
  rw [← hfirst]
  rfl

/-- Where no file is named, the early log level is that of the file of the project if there is one, and
that of the file of the user only if there is none. -/
theorem logLevelWith_none (decode : String → Option Settings) (files : Tree) (user? : Option String) :
    logLevelWith decode files user? none =
      ((if files.exists? projectPath then given? decode files projectPath
        else user?.bind (given? decode files)).bind (·.logLevel)) := by
  unfold logLevelWith
  cases files.exists? projectPath with
  | true => rfl
  | false => cases user? <;> rfl

/-- Whether the file of the project is passed over for a log level that is not seen early: it is there and
gives nothing, and the file of the user gives a level. -/
structure Overlooked (decode : String → Option Settings) (files : Tree) (user? : Option String) :
    Prop where
  /-- The file of the project is there. -/
  there : files.exists? projectPath = true
  /-- It cannot be read as settings. -/
  broken : ∃ e, readFile decode files projectPath = .error e
  /-- The file of the user can, and gives a level. -/
  level : ∃ path settings level, user? = some path ∧ readFile decode files path = .ok settings ∧
    settings.logLevel = some level

/-- Without a named file the early log level differs from that of the settings exactly if it is
overlooked. -/
theorem logLevelWith_none_eq_iff {standard : Settings} (hstandard : standard.logLevel = none) :
    logLevelWith decode files user? none =
        (((given? decode files projectPath).or (user?.bind (given? decode files))).getD
          standard).logLevel ↔ ¬Overlooked decode files user? := by
  rw [logLevelWith_none]
  cases hproject : given? decode files projectPath with
  | some settings =>
    -- A file that gives settings is there, and both take it.
    have hsame : ¬Overlooked decode files user? := by
      rintro ⟨-, hbroken, -⟩
      rw [given?_eq_none_iff.2 hbroken] at hproject
      exact absurd hproject (by simp)
    simp [exists_of_given? hproject, hsame]
  | none =>
    rw [Option.none_or]
    cases hexists : files.exists? projectPath with
    | false =>
      have hsame : ¬Overlooked decode files user? := by
        rintro ⟨hthere, -, -⟩
        exact absurd (hexists.symm.trans hthere) (by simp)
      cases user?.bind (given? decode files) <;> simp [hsame, hstandard]
    | true =>
      -- The early reader stops here, without a level.
      have hlevel : Overlooked decode files user? ↔
          ∃ settings level, user?.bind (given? decode files) = some settings ∧
            settings.logLevel = some level := by
        constructor
        · rintro ⟨-, -, path, settings, level, rfl, hread, hlevel⟩
          exact ⟨settings, level, given?_eq_some_iff.2 hread, hlevel⟩
        · rintro ⟨settings, level, hsettings, hlevel⟩
          obtain ⟨path, rfl, hread⟩ := Option.bind_eq_some_iff.1 hsettings
          exact ⟨hexists, given?_eq_none_iff.1 hproject, path, settings, level, rfl,
            given?_eq_some_iff.1 hread, hlevel⟩
      rw [hlevel]
      cases user?.bind (given? decode files) with
      | none => simp [hstandard]
      | some settings => cases hnone : settings.logLevel <;> simp [hnone]

/-! ## §3 Both readings -/

/-- **The early log level.**  Let settings be loaded, from the file that is named or from a standard one,
with any decoder and any files.  The log level that is read before is that of these settings exactly if
it is not overlooked: unless no file is named, the file of the project is there but cannot be read as
settings, and the file of the user can and gives a level. -/
theorem logLevelWith_eq_iff {env : Environment} {c : Settings}
    (h : loadWith decode (defaults env) files user? named = .ok c) :
    logLevelWith decode files user? named = c.logLevel ↔
      ¬(named = none ∧ Overlooked decode files user?) := by
  cases named with
  | some path =>
    have hread : readFile decode files path = .ok c := h
    simp [logLevelWith, hread, Except.toOption]
  | none =>
    rw [loadWith_none, Except.ok.injEq] at h
    rw [← h, logLevelWith_none_eq_iff rfl]
    simp

/-! ## §4 A project and a user -/

/-- An environment with a home directory. -/
def homeEnvironment : Environment := Dict.ofList [("HOME", "home")]

/-- Files with settings of a project and of a user. -/
def standardTree (project user : String) : Tree :=
  Dict.ofList [(projectPath, .file project.toUTF8 false), ("home", .directory),
    ("home/.config", .directory), ("home/.config/placeholders", .directory),
    ("home/.config/placeholders/placeholders.yml", .file user.toUTF8 false)]

/-- Both read the settings of the project, which hide those of the user. -/
theorem logLevelWith_eq_iff_project : ∃ c,
    load homeEnvironment (standardTree "log-level: trace\n" "log-level: debug\n") none = .ok c ∧
      c.logLevel = some "trace" ∧
      loadLogLevel homeEnvironment (standardTree "log-level: trace\n" "log-level: debug\n") none =
        c.logLevel := by
  have hload := loadWith_none (read? (defaults homeEnvironment)) (defaults homeEnvironment)
    (standardTree "log-level: trace\n" "log-level: debug\n") (userPath? homeEnvironment)
  refine ⟨_, hload, by decide +kernel, (logLevelWith_eq_iff hload).2 ?_⟩
  rintro ⟨-, -, hbroken, -⟩
  have hgiven : (given? (read? (defaults homeEnvironment))
      (standardTree "log-level: trace\n" "log-level: debug\n") projectPath).isSome = true := by
    decide +kernel
  rw [given?_eq_none_iff.2 hbroken] at hgiven
  exact absurd hgiven (by simp)

/-- Settings of a project that are broken are passed over for those of the user, but not by the early
reading, which then sees no log level. -/
theorem not_logLevel_of_load : ¬∀ env files named c, load env files named = .ok c →
    loadLogLevel env files named = c.logLevel := by
  intro h
  have heq := h homeEnvironment (standardTree "[" "log-level: debug\n") none _
    (loadWith_none (read? (defaults homeEnvironment)) (defaults homeEnvironment)
      (standardTree "[" "log-level: debug\n") (userPath? homeEnvironment))
  exact absurd heq (by decide +kernel)

end Stencil.Settings
