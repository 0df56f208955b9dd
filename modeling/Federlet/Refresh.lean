import Federlet.Admission
import Federlet.Client

/-! One-shot refresh decisions for peers whose manifest is already trusted. -/

namespace Federlet

inductive RefreshAction where
  | unchanged
  | accept
  | quarantine
  | reject
  deriving DecidableEq

def KeyContinuityAction.toRefresh : KeyContinuityAction → RefreshAction
  | .accept => .accept
  | .quarantine => .quarantine
  | .reject => .reject

structure ManifestRefreshDecision where
  action : RefreshAction
  reason : String := "ok"
  manifest : Option Manifest := none
  oldRevision : Option Int := none
  newRevision : Option Int := none
  keyContinuity : Option KeyContinuityDecision := none

def manifestReason (reason : String) : String := if reason = "" then "bad_manifest" else reason

/-- The two `except` clauses around the fetch. -/
def refreshFailure (oldRevision : Int) : Exc → Except Exc ManifestRefreshDecision
  | .manifestVerificationError reason =>
    let reason := manifestReason reason
    if reason = "expired" ∨ reason = "not_yet_valid" then
      .ok { action := .quarantine, reason := "stale_manifest", oldRevision := some oldRevision }
    else .ok { action := .reject, reason := reason, oldRevision := some oldRevision }
  | exc =>
    match transportFailureReason exc with
    | some reason =>
      .ok { action := .quarantine, reason := reason, oldRevision := some oldRevision }
    | none => .error exc

/-- The decision once key continuity of a manifest that is no rollback is known. -/
def continuityDecision (currentManifest refreshed : Manifest)
    (continuity : KeyContinuityDecision) : ManifestRefreshDecision :=
  let decision (action : RefreshAction) (reason : String) : ManifestRefreshDecision :=
    { action, reason, manifest := some refreshed, oldRevision := some currentManifest.revision,
      newRevision := some refreshed.revision, keyContinuity := some continuity }
  if continuity.action ≠ .accept then decision continuity.action.toRefresh continuity.reason
  else if refreshed.revision = currentManifest.revision then decision .unchanged "ok"
  else decision .accept "revision_bump"

def refreshPeerManifest (P : Platform) (client : FederationClient) (currentManifest : Manifest)
    (manifestUrl : String) (keyContinuityPolicy : Option KeyContinuityPolicy)
    (maxSkewSeconds : Int) :
    Py ManifestRefreshDecision := do
  let o := Origin.fetch currentManifest.nodeId
  match ← (fetchManifest P client o manifestUrl maxSkewSeconds).attempt with
  | .error exc => raising (refreshFailure currentManifest.revision exc)
  | .ok refreshed =>
    if refreshed.revision < currentManifest.revision then
      return { action := .reject, reason := "revision_rollback", manifest := some refreshed,
               oldRevision := some currentManifest.revision,
               newRevision := some refreshed.revision }
    let continuity ← checkKeyContinuity P o currentManifest refreshed keyContinuityPolicy
    return continuityDecision currentManifest refreshed continuity

/-- `asyncio.gather` over the targets: every fetch runs, what each did is kept. -/
def gatherRefreshes (P : Platform) (client : FederationClient)
    (keyContinuityPolicy : Option KeyContinuityPolicy) (maxSkewSeconds : Int) :
    List (Manifest × String) → Py (List (Except Exc (String × ManifestRefreshDecision)))
  | [] => return []
  | (peer, manifestUrl) :: rest => do
    let one ← (refreshPeerManifest P client peer manifestUrl keyContinuityPolicy
      maxSkewSeconds).attempt
    let others ← gatherRefreshes P client keyContinuityPolicy maxSkewSeconds rest
    return one.map (fun decision => (peer.nodeId, decision)) :: others

/-- `gather` raises an exception of one of its tasks if any raised. -/
def gathered {α : Type} : List (Except Exc α) → Except Exc (List α)
  | [] => .ok []
  | r :: rest => do
    let a ← r
    let others ← gathered rest
    return a :: others

def refreshAllManifests (P : Platform) (client : FederationClient)
    (peers : List (Manifest × String)) (keyContinuityPolicy : Option KeyContinuityPolicy)
    (maxSkewSeconds : Int) :
    Py (List (String × ManifestRefreshDecision)) := do
  let results ← gatherRefreshes P client keyContinuityPolicy maxSkewSeconds peers
  raising (gathered results)

end Federlet
