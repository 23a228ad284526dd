import Stencil.Custom
import Stencil.Proofs.Directives.Exchanges
import Stencil.Proofs.Engine.Invariants

/-!
# The Network Switch and the Limit on Pages

While the network is disabled, no directive attempts to fetch a page, whatever it is applied to,
whatever was applied before it, and whatever scripts ask for.  While it is enabled, a page that is
longer than the limit gives no directive anything: what they give is what they would give if the text of
such a page had been withheld.

Main statement: `network_contained`.
-/

namespace Stencil

/-! ## §1 Fetches -/

namespace Web

theorem fetch_of_disabled {host : Host} (h : host.network.enabled = false) (url : String) :
    fetch host url = throw (.unavailable "network access is disabled") := by
  unfold fetch
  rw [h]
  rfl

theorem le_of_accept {limit : Nat} {url body : String} {answer : WebAnswer}
    (h : accept limit url answer = .ok body) : body.utf8ByteSize ≤ limit := by
  cases answer with
  | unreachable reason => cases h
  | page status announced text =>
    rw [accept] at h
    split at h
    · cases h
    · split at h
      · cases h
      · -- The text itself is measured, whatever length was announced.
        rename_i hlength
        cases h
        rw [Bool.or_eq_true, not_or, decide_eq_true_eq] at hlength
        exact Nat.not_lt.1 hlength.2

theorem le_of_fetch {host : Host} {url body : String} {m m' : Machine}
    (h : fetch host url m = .ok body m') : body.utf8ByteSize ≤ host.network.maxBytes := by
  unfold fetch at h
  split at h
  · cases h
  · obtain ⟨_, m₁, -, hanswer⟩ := Store.ok_of_bind h
    cases haccept : accept host.network.maxBytes url (host.web url) with
    | ok text =>
      rw [haccept] at hanswer
      cases hanswer
      exact le_of_accept haccept
    | error e =>
      rw [haccept] at hanswer
      cases hanswer

/-- An answer without the text of a page that is too long. -/
def withhold (limit : Nat) : WebAnswer → WebAnswer
  | .page status announced body =>
    if limit < body.utf8ByteSize then .page status (some body.utf8ByteSize) ""
    else .page status announced body
  | .unreachable reason => .unreachable reason

theorem le_of_withhold {limit status : Nat} {answer : WebAnswer} {announced : Option Nat}
    {body : String} (h : withhold limit answer = .page status announced body) :
    body.utf8ByteSize ≤ limit := by
  cases answer with
  | unreachable reason => cases h
  | page status announced text =>
    rw [withhold] at h
    split at h
    · cases h
      exact Nat.zero_le limit
    · rename_i hlength
      cases h
      exact Nat.not_lt.1 hlength

theorem answerStatus?_withhold (limit : Nat) (answer : WebAnswer) :
    answerStatus? (withhold limit answer) = answerStatus? answer := by
  cases answer with
  | unreachable reason => rfl
  | page status announced body =>
    rw [withhold]
    split
    · rfl
    · rfl

/-- The text of a page that is too long plays no part in what the page comes to. -/
theorem accept_withhold (limit : Nat) (url : String) (answer : WebAnswer) :
    accept limit url (withhold limit answer) = accept limit url answer := by
  cases answer with
  | unreachable reason => rfl
  | page status announced body =>
    rw [withhold]
    split
    · rename_i hlong
      simp [accept, hlong]
    · rfl

end Web

/-- A host to which the network answers otherwise. -/
def Host.answering (host : Host) (web : String → WebAnswer) : Host := { host with web := web }

/-- A host to which the network answers without the texts of pages that are too long. -/
def Host.withholding (host : Host) : Host :=
  host.answering fun url => Web.withhold host.network.maxBytes (host.web url)

/-- What is fetched does not depend on such texts. -/
theorem Web.fetch_withholding (host : Host) (url : String) :
    fetch host.withholding url = fetch host url := by
  have haccept := accept_withhold host.network.maxBytes url (host.web url)
  have hstatus := answerStatus?_withhold host.network.maxBytes (host.web url)
  unfold fetch
  simp only [Host.withholding, Host.answering, haccept, hstatus]

namespace Directives

open Catalog Custom Engine Store Template

/-! ## §2 Directives that fetch -/

/-- Directives see no more of the network than their fetches show. -/
theorem builtin_answering {host : Host} {web : String → WebAnswer}
    (h : ∀ url, Web.fetch (host.answering web) url = Web.fetch host url) :
    builtin (host.answering web) = builtin host := by
  -- From the fetch upwards: each of these sees the network through the ones before it only.
  have hjson (url : String) : Web.fetchJson (host.answering web) url = Web.fetchJson host url := by
    rw [Web.fetchJson, Web.fetchJson, h]
  have hlocate (ctx : Context) : locate (host.answering web) ctx = locate host ctx := by
    rw [locate, locate, hjson]
  have hlocation : location (host.answering web) = location host := by
    simp only [location, hlocate]
  have hforecast (f : Forecast) : f.directive (host.answering web) = f.directive host := by
    simp only [Forecast.directive, hlocate, hjson]
  have hurl : url (host.answering web) = url host := by
    simp only [url, h]
  have hinformational : informational (host.answering web) = informational host := by
    rw [informational, informational, hlocation, hforecast, hforecast]
    rfl
  have hbefore : beforeScripts (host.answering web) = beforeScripts host := by
    rw [beforeScripts, beforeScripts, hurl]
    rfl
  have hcallable : callable (host.answering web) = callable host := by
    rw [callable, callable, hinformational, hbefore]
    rfl
  have hlow : low (host.answering web) = low host := by
    rw [low, low, hbefore, hcallable]
    rfl
  rw [builtin_eq, builtin_eq, hinformational, hlow]
  rfl

/-! ## §3 The network disabled -/

theorem state_step (r : Rendering Machine) (d : Builtin) (token : Token) :
    (r.step d token).state = stateOf (d.apply token r.context r.state) := by
  rw [Rendering.step, Evaluation.run]
  cases d.apply token r.context r.state <;> rfl

/-- The machine after directives have been applied to tokens in contexts, one after the other. -/
def applyAll (steps : List (Builtin × Token × Context)) (m : Machine) : Machine :=
  steps.foldl (fun m step => stateOf (step.1.apply step.2.1 step.2.2 m)) m

section Disabled

variable {host : Host} (hdisabled : host.network.enabled = false)
include hdisabled

theorem offline_fetch (url : String) : Offline (Web.fetch host url) := by
  rw [Web.fetch_of_disabled hdisabled]
  exact .throw _

/-- While the network is disabled, neither a built-in directive nor a placeholder fetches anything. -/
theorem offline_of_disabled {placeholders : List Placeholder} :
    ∀ d ∈ Custom.directives placeholders ++ builtin host, ∀ token ctx, Offline (d.apply token ctx) := by
  intro d hd token ctx
  rcases List.mem_append.1 hd with hd | hd
  · obtain ⟨placeholder, -, rfl⟩ := List.mem_map.1 hd
    exact .pure _
  · exact offline_builtin (offline_fetch hdisabled) d hd token ctx

theorem exchanges_applyAll {placeholders : List Placeholder}
    {steps : List (Builtin × Token × Context)}
    (hsteps : ∀ step ∈ steps, step.1 ∈ Custom.directives placeholders ++ builtin host) (m : Machine) :
    (applyAll steps m).exchanges = m.exchanges := by
  induction steps generalizing m with
  | nil => rfl
  | cons step steps ih =>
    obtain ⟨hstep, hsteps⟩ := List.forall_mem_cons.1 hsteps
    exact (ih hsteps _).trans (offline_of_disabled hdisabled step.1 hstep step.2.1 step.2.2 m)

theorem exchanges_render (placeholders : List Placeholder) (limit : Nat) (template : String)
    (seed : Context) (m : Machine) :
    (render (Custom.directives placeholders) (builtin host) limit template seed m).state.exchanges =
      m.exchanges := by
  refine renderIn_induction (P := fun r : Rendering Machine => r.state.exchanges = m.exchanges) rfl ?_
  intro d hd r token nested hr hfirst
  have hmem : d ∈ Custom.directives placeholders ++ builtin host := by
    rcases List.mem_append.1 hd with hd | hd
    · exact List.mem_append_left _ hd
    · exact List.mem_append_right _ (List.mem_filter.1 hd).1
  have happly := offline_of_disabled hdisabled d hmem token r.context r.state
  exact (congrArg Machine.exchanges (state_step r d token)).trans (happly.trans hr)

end Disabled

/-! ## §4 The switch and the limit -/

/-- **The network is contained by its switch and its limit.**  While it is disabled, no page is asked
for: not by any sequence of applications of built-in directives and configured placeholders to any tokens
in any contexts, not by any call that a script makes, and not by any rendering; and what the network
would answer makes no difference to any built-in directive.  At any time, what is fetched is within the
limit, and the built-in directives, and so all renderings, are those of a host from which the texts of
longer pages are withheld, whether or not their lengths are announced. -/
theorem network_contained (host : Host) (placeholders : List Placeholder) :
    (host.network.enabled = false →
      (∀ steps : List (Builtin × Token × Context),
        (∀ step ∈ steps, step.1 ∈ Custom.directives placeholders ++ builtin host) →
        ∀ m, (applyAll steps m).exchanges = m.exchanges) ∧
      (∀ ctx call m, (HostCall.perform (callable host) ctx call m).2.exchanges = m.exchanges) ∧
      (∀ limit template seed m, (render (Custom.directives placeholders) (builtin host) limit template
        seed m).state.exchanges = m.exchanges) ∧
      ∀ web, builtin (host.answering web) = builtin host) ∧
    (∀ url m body m', Web.fetch host url m = .ok body m' →
      body.utf8ByteSize ≤ host.network.maxBytes) ∧
    (∀ url status announced body, host.withholding.web url = .page status announced body →
      body.utf8ByteSize ≤ host.network.maxBytes) ∧
    builtin host.withholding = builtin host ∧
    ∀ limit template seed m,
      render (Custom.directives placeholders) (builtin host.withholding) limit template seed m =
        render (Custom.directives placeholders) (builtin host) limit template seed m := by
  have hwithholding : builtin host.withholding = builtin host :=
    builtin_answering (Web.fetch_withholding host)
  refine ⟨fun hdisabled => ⟨fun steps hsteps => exchanges_applyAll hdisabled hsteps,
      exchanges_perform (offline_callable (offline_fetch hdisabled)),
      exchanges_render hdisabled placeholders, fun web => builtin_answering fun url => ?_⟩,
    fun _ _ _ _ => Web.le_of_fetch, fun _ _ _ _ => Web.le_of_withhold, hwithholding, ?_⟩
  · rw [Web.fetch_of_disabled hdisabled, @Web.fetch_of_disabled (host.answering web) hdisabled]
  · rw [hwithholding]
    exact fun _ _ _ _ => rfl

/-- A host whose network is disabled, and one with a page within its limit and others beyond it. -/
theorem network_contained_pages :
    let web : String → WebAnswer := fun url =>
      .page 200 none (if url = "https://short" then "four" else "longer")
    let off : Host := { stillHost default with network := ⟨false, 10, "", 4⟩, web := web }
    let on : Host := { stillHost default with network := ⟨true, 10, "", 4⟩, web := web }
    let m := stillMachine Dict.empty
    (render (Custom.directives []) (builtin off) 5 "{{url:https://short}}{{location}}" Dict.empty
      m).state.exchanges = [] ∧
    (applyAll [(url off, .compose "url" .none (some "https://short"), Dict.empty)] m).exchanges = [] ∧
    (∃ m', Web.fetch on "https://short" m = .ok "four" m' ∧ "four".utf8ByteSize ≤ 4) ∧
    builtin on.withholding = builtin on := by
  intro web off on m
  obtain ⟨hoff, -⟩ := network_contained off []
  obtain ⟨happlied, -, hrendered, -⟩ := hoff rfl
  obtain ⟨-, hfetched, -, hwithheld, -⟩ := network_contained on []
  have hurl : url off ∈ builtin off := by
    rw [builtin_eq]
    exact List.mem_append_right _ (by simp [low, beforeScripts])
  have hfetch : Web.fetch on "https://short" m =
      .ok "four" { m with exchanges := [⟨"https://short", some 200⟩] } := rfl
  refine ⟨hrendered _ _ _ _, happlied _ ?_ _, ⟨_, hfetch, hfetched _ _ _ _ hfetch⟩, hwithheld⟩
  intro step hstep
  rw [List.mem_singleton.1 hstep]
  exact List.mem_append_right _ hurl

end Directives

end Stencil
