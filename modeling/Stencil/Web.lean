import Stencil.Machine
import Stencil.Json.Parser

/-!
# Fetching pages

A page is fetched only while the network is enabled, and used only when it is within the limit on
its length, whether or not the length was announced.  Each attempt is recorded.
-/

namespace Stencil.Web

/-- The words for a status that reports an error. -/
def statusText (status : Nat) (url : String) : String :=
  let side := if status < 500 then "client" else "server"
  s!"HTTP status {side} error ({status}) for url ({url})"

/-- The failure of a page that is too long. -/
def tooLong (url : String) (limit : Nat) : Failure :=
  .unavailable s!"{url} is larger than {limit} bytes"

/-- What a page comes to. -/
def accept (limit : Nat) (url : String) : WebAnswer → Except Failure String
  | .unreachable reason => .error (.http none reason)
  | .page status announced body =>
    if 400 ≤ status && status < 600 then .error (.http (some status) (statusText status url))
    else if announced.any (limit < ·) || limit < body.utf8ByteSize then .error (tooLong url limit)
    else .ok body

/-- The status of an answer, if there is one. -/
def answerStatus? : WebAnswer → Option Nat
  | .page status _ _ => some status
  | .unreachable _ => none

/-- The text of a page. -/
def fetch (host : Host) (url : String) : Action Failure Machine String :=
  if !host.network.enabled then throw (.unavailable "network access is disabled")
  else do
    let answer := host.web url
    modify fun m => { m with exchanges := ⟨url, answerStatus? answer⟩ :: m.exchanges }
    match accept host.network.maxBytes url answer with
    | .ok body => return body
    | .error e => throw e

/-- The value of a page that must be JSON. -/
def fetchJson (host : Host) (url : String) : Action Failure Machine Json := do
  match Json.parse? (← fetch host url) with
  | some value => return value
  | none => throw (.unavailable s!"{url} did not return JSON")

end Stencil.Web
