import Stencil.Proofs.Catalog
import Stencil.Proofs.Engine.Tracking
import Stencil.Proofs.Store.Backends

/-!
# What Built-in Directives Depend on and Write

A built-in directive depends on what its token says but not on where that stands.  It writes context
fields under its result keys; some write one field more, which is a result key of none that comes
later.  So the turn of a built-in directive comes before another gives a value to its result keys.

Main statements: `placeless_builtin`, `writes_builtin` and `noEarlyFields_builtin`.
-/

namespace Stencil.Engine

open Store Template Directives Catalog

variable {σ α : Type}

/-! ## §1 Tokens -/

/-- No built-in directive depends on where a token stands. -/
theorem placeless_builtin (host : Host) : ∀ d ∈ builtin host, Placeless d := by
  refine OnBuiltin.forall ⟨fun _ _ _ => rfl, OnInformational.forall ?_, OnLow.forall ?_⟩
  · refine ⟨OnDesktop.forall ?_, fun _ _ _ => rfl, fun _ _ _ _ => rfl, fun _ _ => rfl,
      fun _ _ _ => rfl⟩
    constructor
    case seeded => exact fun _ _ _ _ => rfl
    all_goals exact fun _ _ => rfl
  · refine ⟨OnText.forall ?_, forall_mem_scripts fun _ _ _ _ _ => rfl, fun _ _ => rfl,
      fun _ _ => rfl⟩
    exact ⟨fun _ _ _ => rfl, fun _ _ => rfl, fun _ _ => rfl, fun _ _ _ _ => rfl⟩

/-! ## §2 The fields of actions -/

/-- Whether all fields that an action gives have keys of a list. -/
def Writes (act : Action Failure σ Outcome) (keys : List String) : Prop :=
  ∀ s outcome s', act s = .ok outcome s' → ∀ field ∈ outcome.fields, field.1 ∈ keys

theorem writes_pure {outcome : Outcome} {keys : List String}
    (h : ∀ field ∈ outcome.fields, field.1 ∈ keys) :
    Writes (σ := σ) (pure outcome) keys := by
  intro s outcome' s' hrun
  cases hrun
  exact h

theorem writes_throw (failure : Failure) (keys : List String) :
    Writes (σ := σ) (throw failure) keys := by
  intro s outcome s' hrun
  cases hrun

theorem writes_bind {act : Action Failure σ α} {f : α → Action Failure σ Outcome}
    {keys : List String} (h : ∀ a, Writes (f a) keys) : Writes (act >>= f) keys := by
  intro s outcome s' hrun
  obtain ⟨a, s₁, -, hf⟩ := ok_of_bind hrun
  exact h a s₁ outcome s' hf

theorem writes_ofText (act : Action Failure σ String) (keys : List String) :
    Writes (do return .ofText (← act)) keys :=
  writes_bind fun _ => writes_pure (by simp [Outcome.ofText])

theorem writes_keyed {act : Action Failure σ String} {key : String} {keys : List String}
    (h : key ∈ keys) : Writes (do return .keyed key (← act)) keys :=
  writes_bind fun _ => writes_pure (by simpa [Outcome.keyed] using h)

/-! ## §3 The fields of built-in directives -/

/-- The keys that a directive writes beyond its result keys. -/
def sideKeys (name : String) : List String :=
  if name = "selectedFileContents" then [Context.selectedFilesKey]
  else if name = "location" ∨ name = "currentWeather" ∨ name = "weekWeather" then [locationDataKey]
  else []

/-- The keys that a directive writes. -/
def writtenKeys (d : Directive σ) : List String := d.resultKeys ++ sideKeys d.name

theorem writes_desktop (host : Host) : ∀ d ∈ desktop host, ∀ token ctx,
    Writes (d.apply token ctx) (writtenKeys d) := by
  refine OnDesktop.forall ?_
  constructor
  case clipboardText => exact fun _ _ => writes_keyed List.mem_cons_self
  case selectedText => exact fun _ _ => writes_keyed List.mem_cons_self
  case selectedFiles =>
    exact fun _ _ => writes_bind fun _ => writes_pure (by
      simp [Outcome.keyed, writtenKeys, selectedFiles, shared])
  case selectedFileContents =>
    exact fun _ _ => writes_bind fun _ => writes_bind fun _ => writes_pure (by
      simp [Outcome.keyed, Outcome.withField, writtenKeys, sideKeys, selectedFileContents, shared])
  case currentApplication =>
    exact fun _ _ => writes_bind fun _ => writes_pure (by
      simp [Outcome.keyed, Outcome.withField, writtenKeys, currentApplication, shared])
  case currentUrl => exact fun _ _ => writes_bind fun _ => writes_keyed List.mem_cons_self
  case currentTabText => exact fun _ _ => writes_throw _ _
  case input =>
    intro token ctx
    unfold input shared
    dsimp only
    split
    · exact writes_pure (by simp [Outcome.ofText])
    · exact writes_keyed List.mem_cons_self
  case seeded =>
    intro name description token ctx
    unfold seeded shared
    dsimp only
    split
    · exact writes_pure (by simp [Outcome.ofText])
    · exact writes_throw _ _

theorem writes_system (value : SystemValue) (host : Host) (token : Token) (ctx : Context) :
    Writes ((value.directive host).apply token ctx) (writtenKeys (value.directive host)) := by
  refine writes_bind fun text => ?_
  split
  · refine writes_pure ?_
    cases value <;> simp_all [Outcome.keyed, writtenKeys, SystemValue.directive, SystemValue.keys]
  · exact writes_pure (by simp [Outcome.ofText])

theorem writes_location (host : Host) (token : Token) (ctx : Context) :
    Writes ((location host).apply token ctx) (writtenKeys (location host)) :=
  writes_bind fun _ => writes_pure (by
    simp [Outcome.keyed, Outcome.withField, writtenKeys, sideKeys, location, shared])

theorem writes_forecast (f : Forecast) (host : Host) (token : Token) (ctx : Context) :
    Writes ((f.directive host).apply token ctx) (writtenKeys (f.directive host)) := by
  refine writes_bind fun place => writes_bind fun answer => ?_
  split
  · exact writes_throw _ _
  · refine writes_pure ?_
    cases f <;> simp [Outcome.ofText, Outcome.withField, writtenKeys, sideKeys, Forecast.directive,
      Forecast.name, shared]

theorem writes_low (host : Host) : ∀ d ∈ low host, ∀ token ctx,
    Writes (d.apply token ctx) (writtenKeys d) := by
  refine OnLow.forall ⟨OnText.forall ?_, ?_, ?_, ?_⟩
  · constructor
    case choice => exact fun _ _ _ => writes_bind fun _ => writes_pure (by simp [Outcome.ofText])
    case file =>
      intro token ctx
      unfold file plain
      dsimp only
      split
      · exact writes_throw _ _
      · refine writes_bind fun m => ?_
        split
        · exact writes_pure (by simp [Outcome.ofText])
        · exact writes_throw _ _
    case url =>
      intro token ctx
      unfold url plain
      dsimp only
      split
      · exact writes_throw _ _
      · split
        · exact writes_throw _ _
        · exact writes_bind fun _ => writes_pure (by simp [Outcome.ofText])
    case interactive => exact fun _ _ _ _ => writes_throw _ _
  · exact forall_mem_scripts fun _ _ _ _ _ => writes_ofText _ _
  · exact fun _ _ => writes_pure (by simp [Outcome.empty])
  · intro token ctx
    unfold cutoff plain
    dsimp only
    split
    · exact writes_pure (by simp [Outcome.ofText])
    · exact writes_throw _ _

/-- Every built-in directive writes only its keys. -/
theorem writes_builtin (host : Host) : ∀ d ∈ builtin host, ∀ token ctx,
    Writes (d.apply token ctx) (writtenKeys d) := by
  refine OnBuiltin.forall ⟨fun _ _ _ => writes_ofText _ _, OnInformational.forall ?_,
    writes_low host⟩
  exact ⟨writes_desktop host, fun value => writes_system value host,
    fun _ _ _ _ => writes_throw _ _, writes_location host, fun f => writes_forecast f host⟩

theorem fields_of_writes {e : Evaluation σ} {keys : List String}
    (h : Writes (e.directive.apply e.token e.context) keys) :
    ∀ field ∈ e.outcome.fields, field.1 ∈ keys := by
  intro field hfield
  obtain ⟨outcome, s', hrun, hmem⟩ := exists_apply_of_mem_fields hfield
  exact h e.state outcome s' hrun field hmem

/-! ## §4 The order of directives -/

/-- Whether a directive may come before another: it writes no result key of that one and does not
depend on it. -/
def MayPrecede (d d' : Directive σ) : Prop :=
  (∀ key ∈ writtenKeys d, key ∉ d'.resultKeys) ∧ d'.name ∉ d.dependencies

theorem resultKeys_low (host : Host) : ∀ d ∈ low host, d.resultKeys = [] :=
  OnLow.forall {
    text := OnText.forall ⟨fun _ => rfl, rfl, rfl, fun _ _ => rfl⟩
    scripts := forall_mem_scripts fun _ _ _ => rfl
    ignore := rfl
    cutoff := rfl }

/-- A built-in directive without result keys has no seeded values. -/
theorem seedText?_of_resultKeys {host : Host} {d : Builtin} (hd : d ∈ builtin host)
    (hkeys : d.resultKeys = []) (seed : Context) : seedText? (builtin host) seed d.name = none := by
  rw [seedText?, find?_of_mem (nodup_builtin host) hd]
  simp [hkeys]

/-- Every built-in directive may come before those that come after it. -/
theorem pairwise_builtin (host : Host) : (builtin host).Pairwise MayPrecede := by
  have hhigh : ∀ d ∈ high host, ∀ d', MayPrecede d d' := by
    intro d hd d'
    obtain ⟨op, -, rfl⟩ := List.mem_map.1 hd
    have hnone : writtenKeys (op.directive host) = [] := by
      change sideKeys op.name = []
      cases op <;> decide
    exact ⟨by rw [hnone]; simp, by rw [dependencies_high host _ hd]; exact List.not_mem_nil⟩
  have hlow : ∀ d ∈ informational host ++ low host, ∀ d' ∈ low host, MayPrecede d d' := by
    intro d hd d' hd'
    refine ⟨fun key _ => by rw [resultKeys_low host d' hd']; exact List.not_mem_nil, fun hdep => ?_⟩
    have hname : d'.name ∈ lowNames := by
      rw [← names_low host]
      exact List.mem_map_of_mem hd'
    rw [dependencies_builtin host d (by
      rw [builtin_eq, List.append_assoc]
      exact List.mem_append_right _ hd) _ hdep] at hname
    exact absurd hname (by decide +kernel)
  have hinformational : (informational host).Pairwise MayPrecede := by
    -- What is looked up differs from host to host, but not the keys.
    have hkeys : ((informational host).map fun d =>
          (d.name, writtenKeys d, d.resultKeys, d.dependencies)) =
        (informational (stillHost default)).map fun d =>
          (d.name, writtenKeys d, d.resultKeys, d.dependencies) := rfl
    have hstill : ((informational (stillHost default)).map fun d =>
        (d.name, writtenKeys d, d.resultKeys, d.dependencies)).Pairwise fun a b =>
          (∀ key ∈ a.2.1, key ∉ b.2.2.1) ∧ b.1 ∉ a.2.2.2 := by
      decide +kernel
    rw [← hkeys, List.pairwise_map] at hstill
    exact hstill
  rw [builtin_eq, List.append_assoc, List.pairwise_append, List.pairwise_append]
  refine ⟨List.pairwise_of_forall_mem_list fun d hd d' _ => hhigh d hd d',
    ⟨hinformational, List.pairwise_of_forall_mem_list fun d hd d' hd' =>
      hlow d (List.mem_append_right _ hd) d' hd', fun d hd d' hd' =>
      hlow d (List.mem_append_left _ hd) d' hd'⟩, fun d hd d' _ => hhigh d hd d'⟩

/-- No built-in directive is given values before its turn. -/
theorem noEarlyFields_builtin (host : Host) (limit : Nat) {start : Rendering Machine}
    (hstart : start.evaluations = []) : NoEarlyFields (builtin host) limit start := by
  intro before d after horder e he hne field hfield hkey
  have hpairwise := pairwise_builtin host
  rw [horder, List.pairwise_append] at hpairwise
  obtain ⟨-, -, hbefore⟩ := hpairwise
  -- The evaluation belongs to the visit of some directive that comes before.
  obtain ⟨blocks, hblocks, hforall⟩ := evaluations_visits (builtin host) limit before start
  rw [hblocks, hstart, List.nil_append] at he
  obtain ⟨block, hblock, he⟩ := List.mem_flatten.1 he
  obtain ⟨i, hi, rfl⟩ := List.mem_iff_getElem.1 hblock
  have hlength := hforall.length_eq
  obtain ⟨-, hdirective⟩ := directive_of_isBlock (hforall.get (by omega) hi) e he
  have hmem : e.directive ∈ before := by
    rcases hdirective with heq | ⟨hdep, hfind⟩
    · rw [heq]
      exact List.getElem_mem _
    · have horder' := mem_of_find? hfind
      rw [horder] at horder'
      rcases List.mem_append.1 horder' with hmem | hmem
      · exact hmem
      · rcases List.mem_cons.1 hmem with heq | hmem
        · exact absurd (congrArg Directive.name heq) hne
        · exact absurd hdep
            (hbefore _ (List.getElem_mem _) _ (List.mem_cons_of_mem _ hmem)).2
  have hbuiltin : e.directive ∈ builtin host := by
    rw [horder]
    exact List.mem_append_left _ hmem
  refine (hbefore _ hmem d List.mem_cons_self).1 _ ?_ hkey
  exact fields_of_writes (writes_builtin host _ hbuiltin e.token e.context) field hfield

end Stencil.Engine
