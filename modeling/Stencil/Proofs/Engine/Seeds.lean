import Stencil.Proofs.Engine.Fields
import Stencil.Proofs.Paths

/-!
# What Becomes of Seeded Values

Most built-in directives write one key and are passed over when that is resolved, so they never write
over a seeded value.  Those that look up the location write again what they found in the context.  There
are two that write over a value: `selectedFileContents` writes the selected files as a list of paths,
and `currentApplication` writes both its keys when only one of them was resolved, or when it is worked
off as a dependency.

Main statement: `seed_kept`.
-/

namespace Stencil.Engine

open Store Template Directives Catalog
open Context (selectedFilesKey splitPaths joinPaths valueText)

/-! ## §1 What is written over a value -/

/-- A result key of a built-in directive is its only one, unless that is `currentApplication`. -/
theorem resultKeys_builtin (host : Host) : ∀ d ∈ builtin host, ∀ key ∈ d.resultKeys,
    d.resultKeys = [key] ∨
      d.name = "currentApplication" ∧ (key = "currentAppName" ∨ key = "currentAppPath") := by
  intro d hd key hkey
  rw [builtin_eq, List.mem_append, List.mem_append] at hd
  rcases hd with (hd | hd) | hd
  · obtain ⟨op, -, rfl⟩ := List.mem_map.1 hd
    exact absurd hkey List.not_mem_nil
  · -- What is looked up differs from host to host, but not the keys.
    have hkeys : ((informational host).map fun d => (d.name, d.resultKeys)) =
        (informational (stillHost default)).map fun d => (d.name, d.resultKeys) := rfl
    have hstill : ∀ p ∈ (informational (stillHost default)).map fun d => (d.name, d.resultKeys),
        ∀ key ∈ p.2, p.2 = [key] ∨
          p.1 = "currentApplication" ∧ (key = "currentAppName" ∨ key = "currentAppPath") := by
      decide +kernel
    exact hstill (d.name, d.resultKeys) (hkeys ▸ List.mem_map_of_mem hd) key hkey
  · rw [resultKeys_low host d hd] at hkey
    exact absurd hkey List.not_mem_nil

section Fields

variable {host : Host} {token : Token} {ctx : Context} {m m' : Machine} {outcome : Outcome}
  {field : String × Json} (hfield : field ∈ outcome.fields) {w : Json}
include hfield

/-- The selected files are written as the list of paths that is found. -/
theorem selectedFiles_of_contents
    (hrun : (selectedFileContents host).apply token ctx m = .ok outcome m')
    (hkey : field.1 = selectedFilesKey) (hw : ctx.get? selectedFilesKey = some w)
    (hresolved : ctx.isResolved selectedFilesKey = true) :
    field.2 = .text (joinPaths (splitPaths (valueText w))) := by
  obtain ⟨paths, m₁, hpaths, hrun⟩ := ok_of_bind hrun
  obtain ⟨m₂, m₃, -, hrun⟩ := ok_of_bind hrun
  rw [selection, if_pos hresolved] at hpaths
  cases hpaths
  cases hrun
  rw [Context.selectedFiles, Context.text?, hw] at hfield
  simp only [Outcome.withField, Outcome.keyed, List.cons_append, List.nil_append, List.mem_cons,
    List.not_mem_nil, or_false] at hfield
  rcases hfield with rfl | rfl
  · exact absurd (show "selectedFileContents" = selectedFilesKey from hkey) (by decide)
  · rfl

omit hfield in
theorem locate_of_known {place : Location × Json} (hw : ctx.get? locationDataKey = some w)
    (hrun : locate host ctx m = .ok place m') : place.2 = w := by
  unfold locate at hrun
  rw [hw] at hrun
  obtain ⟨raw, m₁, hraw, hrun⟩ := ok_of_bind hrun
  cases hraw
  dsimp only at hrun
  cases hlocation : Location.ofJson? w with
  | none =>
    rw [hlocation] at hrun
    cases hrun
  | some location =>
    rw [hlocation] at hrun
    cases hrun
    rfl

/-- The location is written as it is found. -/
theorem locationData_of_location (hrun : (location host).apply token ctx m = .ok outcome m')
    (hkey : field.1 = locationDataKey) (hw : ctx.get? locationDataKey = some w) : field.2 = w := by
  obtain ⟨place, m₁, hplace, hrun⟩ := ok_of_bind hrun
  cases hrun
  simp only [Outcome.withField, Outcome.keyed, List.cons_append, List.nil_append, List.mem_cons,
    List.not_mem_nil, or_false] at hfield
  rcases hfield with rfl | rfl
  · exact absurd (show "location" = locationDataKey from hkey) (by decide)
  · exact locate_of_known hw hplace

/-- So it is with a forecast. -/
theorem locationData_of_forecast (f : Forecast)
    (hrun : (f.directive host).apply token ctx m = .ok outcome m')
    (hkey : field.1 = locationDataKey) (hw : ctx.get? locationDataKey = some w) : field.2 = w := by
  obtain ⟨place, m₁, hplace, hrun⟩ := ok_of_bind hrun
  obtain ⟨answer, m₂, -, hrun⟩ := ok_of_bind hrun
  cases hpart : answer.field? f.part with
  | none =>
    rw [hpart] at hrun
    cases hrun
  | some part =>
    rw [hpart] at hrun
    cases hrun
    simp only [Outcome.withField, Outcome.ofText, List.cons_append, List.nil_append, List.mem_cons,
      List.not_mem_nil, or_false] at hfield
    rcases hfield with rfl | rfl
    · have hname : f.name ≠ locationDataKey := by cases f <;> decide
      exact absurd hkey hname
    · exact locate_of_known hw hplace

/-- What a built-in directive writes over a value that is resolved: its only result key, the value itself,
the selected files as a list of paths, or the application in front. -/
theorem field_of_resolved {d : Builtin} (hd : d ∈ builtin host)
    (hrun : d.apply token ctx m = .ok outcome m') (hw : ctx.get? field.1 = some w)
    (hresolved : ctx.isResolved field.1 = true) :
    d.resultKeys = [field.1] ∨ field.2 = w ∨
      (d.name = "selectedFileContents" ∧ field.1 = selectedFilesKey ∧
        field.2 = .text (joinPaths (splitPaths (valueText w)))) ∨
      (d.name = "currentApplication" ∧ (field.1 = "currentAppName" ∨ field.1 = "currentAppPath")) := by
  have hwritten := writes_builtin host d hd token ctx m outcome m' hrun field hfield
  rcases List.mem_append.1 hwritten with hkey | hside
  · rcases resultKeys_builtin host d hd field.1 hkey with hone | happ
    · exact .inl hone
    · exact .inr (.inr (.inr happ))
  · -- The four directives with a key beyond their result keys.
    have hsame {d' : Builtin} (hd' : d' ∈ informational host) (hname : d.name = d'.name) : d = d' :=
      eq_of_name hd (mem_builtin_of_informational hd') hname
    unfold sideKeys at hside
    split at hside
    · rename_i hname
      have hkey := List.mem_singleton.1 hside
      obtain rfl := hsame (show selectedFileContents host ∈ informational host by
        simp [informational, desktop]) hname
      rw [hkey] at hw hresolved
      exact .inr (.inr (.inl ⟨hname, hkey, selectedFiles_of_contents hfield hrun hkey hw hresolved⟩))
    · split at hside
      · rename_i hname
        have hkey := List.mem_singleton.1 hside
        rw [hkey] at hw
        refine .inr (.inl ?_)
        rcases hname with hname | hname | hname
        · obtain rfl := hsame (show location host ∈ informational host by
            simp [informational]) hname
          exact locationData_of_location hfield hrun hkey hw
        · obtain rfl := hsame (show Forecast.current.directive host ∈ informational host by
            simp [informational]) hname
          exact locationData_of_forecast hfield .current hrun hkey hw
        · obtain rfl := hsame (show Forecast.week.directive host ∈ informational host by
            simp [informational]) hname
          exact locationData_of_forecast hfield .week hrun hkey hw
      · exact absurd hside List.not_mem_nil

end Fields

/-! ## §2 A seeded value in a rendering -/

/-- What may become of a value that was seeded under a key. -/
inductive Kept (key : String) (v : Json) (r : Rendering Machine) : Prop where
  /-- It is still there. -/
  | same (hvalue : r.context.get? key = some v)
  /-- It was read as a list of paths by `selectedFileContents`, and that list is there. -/
  | listed (hkey : key = selectedFilesKey)
      (hvalue : r.context.get? key = some (.text (joinPaths (splitPaths (valueText v)))))
      (hby : ∃ e ∈ r.evaluations, e.directive.name = "selectedFileContents")
  /-- It was an application, and there is what `currentApplication` gave. -/
  | lookedUp (hkey : key = "currentAppName" ∨ key = "currentAppPath")
      (hby : ∃ e ∈ r.evaluations, e.directive.name = "currentApplication" ∧
        ∃ field ∈ e.outcome.fields, field.1 = key ∧ r.context.get? key = some field.2)

namespace Kept

variable {host : Host} {key : String} {v : Json} {r : Rendering Machine}

/-- What became of a value is resolved if the value was. -/
theorem isResolved (h : Kept key v r) (hinput : key ≠ Context.inputKey ∨ v ≠ .text "") :
    Context.isResolved r.context key = true := by
  rw [isResolved_iff_exists]
  cases h with
  | same hvalue => exact ⟨v, hvalue, fun hkey => hinput.resolve_left (not_not.2 hkey)⟩
  | listed hkey hvalue hby =>
    exact ⟨_, hvalue, fun hinput => absurd (hkey.symm.trans hinput) (by decide)⟩
  | lookedUp hkey hby =>
    obtain ⟨e, -, -, field, -, -, hvalue⟩ := hby
    have hne : key ≠ Context.inputKey := by rcases hkey with rfl | rfl <;> decide
    exact ⟨field.2, hvalue, fun hinput => absurd hinput hne⟩

/-- It stays what it is while its value does and evaluations are added. -/
theorem mono (h : Kept key v r) {r' : Rendering Machine}
    (hvalue : r'.context.get? key = r.context.get? key) (hes : r.evaluations ⊆ r'.evaluations) :
    Kept key v r' := by
  cases h with
  | same hv => exact .same (hvalue.trans hv)
  | listed hkey hv hby =>
    obtain ⟨e, he, hname⟩ := hby
    exact .listed hkey (hvalue.trans hv) ⟨e, hes he, hname⟩
  | lookedUp hkey hby =>
    obtain ⟨e, he, hname, field, hfield, hfkey, hv⟩ := hby
    exact .lookedUp hkey ⟨e, hes he, hname, field, hfield, hfkey, hvalue.trans hv⟩

/-- The list of paths that is read from what became of selected files is that of the seed, since a list
that was written is read as it is. -/
theorem paths_eq (h : Kept selectedFilesKey v r) {w : Json}
    (hw : r.context.get? selectedFilesKey = some w) :
    joinPaths (splitPaths (valueText w)) = joinPaths (splitPaths (valueText v)) := by
  cases h with
  | same hv =>
    obtain rfl := Option.some.inj (hw.symm.trans hv)
    rfl
  | listed _ hv _ =>
    obtain rfl := Option.some.inj (hw.symm.trans hv)
    rw [valueText, Context.splitPaths_joinPaths_splitPaths]
  | lookedUp hkey _ =>
    have hne : ¬(selectedFilesKey = "currentAppName" ∨ selectedFilesKey = "currentAppPath") := by
      decide
    exact absurd hkey hne

variable (hinput : key ≠ Context.inputKey ∨ v ≠ .text "")
include hinput

/-- One evaluation, unless the key is the only result key of its directive. -/
theorem step (h : Kept key v r) {d : Builtin} (hd : d ∈ builtin host) (hkeys : d.resultKeys ≠ [key])
    (token : Token) : Kept key v (r.step d token) := by
  have hold := evaluations_subset_step r d token
  have hlast := last_mem_evaluations_step r d token
  have hcontext := context_step r d token
  rcases Dict.get?_insertAll_or r.context
    (⟨d, token, r.context, r.state⟩ : Evaluation Machine).outcome.fields key with
    hsame | ⟨field, hfield, hkey, hvalue⟩
  · exact h.mono (by rw [hcontext]; exact hsame) hold
  · have hvalue' : (r.step d token).context.get? key = some field.2 := by
      rw [hcontext]
      exact hvalue
    obtain ⟨outcome, m', hrun, hfield'⟩ := exists_apply_of_mem_fields hfield
    have hresolved := h.isResolved hinput
    obtain ⟨w, hw⟩ := exists_of_isResolved hresolved
    subst hkey
    -- The value is resolved, so what is written over it is one of four things.
    rcases field_of_resolved hfield' hd hrun hw hresolved with
      hone | heq | ⟨hname, hkey, hpaths⟩ | ⟨hname, hkey⟩
    · exact absurd hone hkeys
    · exact h.mono (by rw [hvalue', hw, heq]) hold
    · refine .listed hkey ?_ ⟨_, hlast, hname⟩
      rw [hkey] at h hw
      rw [hvalue', hpaths, h.paths_eq hw]
    · exact .lookedUp hkey ⟨_, hlast, hname, field, hfield, rfl, hvalue'⟩

/-- Working off a directive, unless the key is its only result key. -/
theorem resolve (h : Kept key v r) {d : Builtin} (hd : d ∈ builtin host)
    (hkeys : d.resultKeys ≠ [key]) (limit : Nat) : Kept key v (Engine.resolve d limit r) := by
  induction limit generalizing r with
  | zero => exact h
  | succ limit ih =>
    rw [Engine.resolve]
    split
    · exact h
    · exact ih (h.step hinput hd hkeys _)

theorem resolveAll (h : Kept key v r) {ds : List Builtin}
    (hds : ∀ d ∈ ds, d ∈ builtin host ∧ d.resultKeys ≠ [key]) (limit : Nat) :
    Kept key v (ds.foldl (fun r d => Engine.resolve d limit r) r) := by
  induction ds generalizing r with
  | nil => exact h
  | cons d ds ih =>
    obtain ⟨hd, hkeys⟩ := hds d List.mem_cons_self
    exact ih (h.resolve hinput hd hkeys limit) fun d' hd' => hds d' (List.mem_cons_of_mem _ hd')

/-- A visit: a directive is passed over if the key is its only result key. -/
theorem visit (h : Kept key v r) {d : Builtin} (hd : d ∈ builtin host) (limit : Nat) :
    Kept key v (Engine.visit (builtin host) limit r d) := by
  unfold Engine.visit
  split
  · exact h
  · rename_i hvisit
    simp only [Bool.or_eq_true, not_or, Bool.not_eq_true] at hvisit
    have hwork : ∀ d' ∈ worklist (builtin host) d, d' ∈ builtin host ∧ d'.resultKeys ≠ [key] := by
      intro d' hd'
      refine ⟨mem_of_mem_worklist hd hd', ?_⟩
      rcases List.mem_append.1 hd' with hd' | hd'
      · -- A dependency is `currentApplication`, which has two result keys.
        obtain ⟨name, hname, hfind⟩ := List.mem_filterMap.1 hd'
        obtain rfl : d' = currentApplication host := eq_of_name (mem_of_find? hfind)
          (mem_builtin_of_informational (by simp [informational, desktop]))
          ((name_of_find? hfind).trans (dependencies_builtin host d hd name hname))
        simp [currentApplication, shared]
      · rw [List.mem_singleton.1 hd']
        intro hkeys
        have hresolved := hvisit.2
        rw [Directive.isResolvedIn, hkeys] at hresolved
        simp [h.isResolved hinput] at hresolved
    exact h.resolveAll hinput hwork limit

theorem visits (h : Kept key v r) {ds : List Builtin} (hds : ∀ d ∈ ds, d ∈ builtin host)
    (limit : Nat) : Kept key v (ds.foldl (Engine.visit (builtin host) limit) r) := by
  induction ds generalizing r with
  | nil => exact h
  | cons d ds ih =>
    exact ih (h.visit hinput (hds d List.mem_cons_self) limit)
      fun d' hd' => hds d' (List.mem_cons_of_mem _ hd')

end Kept

/-- **What becomes of seeded values.**  After a template was rendered with the built-in directives, every
key of the seed but an empty `input` has its value, with two exceptions.  Under `selectedFiles` there
may be the list of its paths instead, if `selectedFileContents` was evaluated, and under the two keys of
an application what an evaluation of `currentApplication` gave. -/
theorem seed_kept (host : Host) (limit : Nat) (template : String) {seed : Context} (m : Machine)
    {key : String} {v : Json} (hseed : seed.get? key = some v)
    (hinput : key ≠ Context.inputKey ∨ v ≠ .text "") :
    Kept key v (render [] (builtin host) limit template seed m) := by
  rw [render, evaluationOrder_nil, renderIn_eq]
  exact Kept.visits hinput (.same hseed) (fun _ hd => hd) limit

/-- A seeded text of the clipboard is kept. -/
theorem seed_kept_clipboard :
    let seed : Context := Dict.empty.insert "clipboardText" (.text "seeded")
    let m := { stillMachine Dict.empty with clipboard := some "live" }
    (render [] (builtin (stillHost default)) 1 "{{clipboardText}}" seed m).context.get? "clipboardText" =
      some (.text "seeded") := by
  intro seed m
  have hkept := seed_kept (stillHost default) 1 "{{clipboardText}}" m
    (show seed.get? "clipboardText" = some (.text "seeded") from rfl) (.inl (by decide))
  cases hkept with
  | same hvalue => exact hvalue
  | listed hkey hvalue hby => exact absurd hkey (by decide)
  | lookedUp hkey hby =>
    rcases hkey with hkey | hkey
    · exact absurd hkey (by decide)
    · exact absurd hkey (by decide)

/-- Seeded files, whose contents are asked for. -/
theorem selectedFiles_not_kept :
    let seed : Context := Dict.empty.insert selectedFilesKey (.text "a.png,b.txt")
    let r := render [] (builtin (stillHost default)) 1 "{{selectedFileContents}}" seed
      (stillMachine Dict.empty)
    seed.get? selectedFilesKey = some (.text "a.png,b.txt") ∧
      Context.text? r.context selectedFilesKey = some "a.png, b.txt" ∧
      r.context.get? selectedFilesKey ≠ some (.text "a.png,b.txt") := by
  intro seed r
  -- Without its value, the result is not run again when the parts are put together.
  have hr : r = render [] (builtin (stillHost default)) 1 "{{selectedFileContents}}" seed
    (stillMachine Dict.empty) := rfl
  clear_value r
  have htext : Context.text? r.context selectedFilesKey = some "a.png, b.txt" := by
    rw [hr]
    decide +kernel
  refine ⟨rfl, htext, fun hsame => ?_⟩
  rw [Context.text?, hsame] at htext
  exact absurd htext (by decide)

end Stencil.Engine
