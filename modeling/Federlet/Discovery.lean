import Federlet.Admission
import Federlet.Client

/-! Discovered-peer admission from signed membership hints, and bootstrap from
configured seeds. Outcomes are appended in the order the source appends them. -/

namespace Federlet

def eligiblePeers (o : Origin) : Py (List MemberRecord) := do
  let now ← utcNow o
  let records ← MembershipTable.values o
  return records.filter (fun rec => rec.isEligible now)

structure DiscoveryOutcome where
  nodeId : String
  manifestUrl : String
  sourceNodeId : String
  reason : String := "ok"
  manifest : Option Manifest := none

structure DiscoveryRefreshReport where
  accepted : List DiscoveryOutcome := []
  rejected : List DiscoveryOutcome := []
  skipped : List DiscoveryOutcome := []
  failed : List DiscoveryOutcome := []

namespace DiscoveryRefreshReport

def accept (r : DiscoveryRefreshReport) (o : DiscoveryOutcome) : DiscoveryRefreshReport :=
  { r with accepted := r.accepted ++ [o] }

def reject (r : DiscoveryRefreshReport) (o : DiscoveryOutcome) : DiscoveryRefreshReport :=
  { r with rejected := r.rejected ++ [o] }

def skip (r : DiscoveryRefreshReport) (o : DiscoveryOutcome) : DiscoveryRefreshReport :=
  { r with skipped := r.skipped ++ [o] }

def fail (r : DiscoveryRefreshReport) (o : DiscoveryOutcome) : DiscoveryRefreshReport :=
  { r with failed := r.failed ++ [o] }

end DiscoveryRefreshReport

def discoveryFailureReason : Exc → String
  | .manifestVerificationError reason => if reason = "" then "bad_manifest" else reason
  | .validationError | .jsonDecodeError => "malformed_manifest"
  | exc => (transportFailureReason exc).getD exc.className

structure DiscoveryRound where
  outcomes : DiscoveryRefreshReport := {}
  seenNodeIds : List String := []
  seenManifestUrls : List String := []

section

variable (P : Platform) (client : FederationClient) (policy : AdmissionPolicy)
  (maxSkewSeconds : Int)

def processRef (ref : MemberRef) (sourceNodeId : String) (outcomes : DiscoveryRefreshReport) :
    Py DiscoveryRefreshReport := do
  let base : DiscoveryOutcome :=
    { nodeId := ref.nodeId, manifestUrl := ref.manifestUrl, sourceNodeId }
  match ← (fetchManifest P client .discovery ref.manifestUrl maxSkewSeconds).attempt with
  | .error exc => return outcomes.fail { base with reason := discoveryFailureReason exc }
  | .ok manifest =>
    let outcome (reason : String) :
      DiscoveryOutcome := { base with reason, manifest := some manifest }
    if manifest.nodeId ≠ ref.nodeId then return outcomes.skip (outcome "node_id_mismatch")
    if manifest.nodeId = client.nodeId then return outcomes.skip (outcome "self")
    let decision ← admitManifest P .discovery manifest policy maxSkewSeconds
    if !decision.accepted then return outcomes.reject (outcome decision.reason)
    let now ← utcNow .discovery
    let record : MemberRecord :=
      { nodeId := manifest.nodeId, orgId := some manifest.orgId, manifestUrl := ref.manifestUrl,
        manifestRevision := manifest.revision }
    MembershipTable.upsert .discovery (record.admitRecord none now)
    return outcomes.accept (outcome "ok")

/-- The loop over one member list, from position `index` on. -/
def processRefs (perPeerCap : Int) (sourceNodeId : String) :
    List MemberRef → Nat → DiscoveryRound → Py DiscoveryRound
  | [], _, round => return round
  | ref :: refs, index, round => do
    let outcome (reason : String) : DiscoveryOutcome :=
      { nodeId := ref.nodeId, manifestUrl := ref.manifestUrl, sourceNodeId, reason }
    let skipped (reason : String) : DiscoveryRound :=
      { round with outcomes := round.outcomes.skip (outcome reason) }
    if perPeerCap ≤ index then
      processRefs perPeerCap sourceNodeId refs (index + 1) (skipped "per_peer_cap")
    else if ref.nodeId = client.nodeId then
      processRefs perPeerCap sourceNodeId refs (index + 1) (skipped "self")
    else
      match ← MembershipTable.get .discovery ref.nodeId with
      | some _ => processRefs perPeerCap sourceNodeId refs (index + 1) (skipped "existing_peer")
      | none =>
        if ref.nodeId ∈ round.seenNodeIds ∨ ref.manifestUrl ∈ round.seenManifestUrls then
          processRefs perPeerCap sourceNodeId refs (index + 1) (skipped "duplicate")
        else
          let outcomes ← processRef P client policy maxSkewSeconds ref sourceNodeId round.outcomes
          processRefs perPeerCap sourceNodeId refs (index + 1)
            { outcomes, seenNodeIds := ref.nodeId :: round.seenNodeIds,
              seenManifestUrls := ref.manifestUrl :: round.seenManifestUrls }

/-- The loop over the eligible members; `ref` is the captured cache dictionary. -/
def processMembers (ref : Nat) (perPeerCap : Int) (since : Option String) :
    List MemberRecord → DiscoveryRound → Py DiscoveryRound
  | [], round => return round
  | rec :: records, round => do
    let outcome (reason : String) : DiscoveryOutcome :=
      { nodeId := rec.nodeId, manifestUrl := rec.manifestUrl, sourceNodeId := rec.nodeId, reason }
    let failed (reason : String) : DiscoveryRound :=
      { round with outcomes := round.outcomes.fail (outcome reason) }
    match ← PeerManifests.getAt .discovery ref rec.nodeId with
    | none => processMembers ref perPeerCap since records (failed "missing_peer_manifest")
    | some peerManifest =>
      match ← (getMembers P .discovery peerManifest since).attempt with
      | .error exc =>
        processMembers ref perPeerCap since records (failed (discoveryFailureReason exc))
      | .ok members => do
        let round ← processRefs P client policy maxSkewSeconds perPeerCap peerManifest.nodeId
          members.members 0 round
        processMembers ref perPeerCap since records round

def refreshDiscoveredMembers (ref : Nat) (perPeerCap : Int) (since : Option String) :
    Py DiscoveryRefreshReport := do
  let records ← eligiblePeers .discovery
  let round ← processMembers P client policy maxSkewSeconds ref perPeerCap since records {}
  return round.outcomes

end

structure SeedBootstrapOutcome where
  seedManifestUrl : String
  reason : String
  seedManifest : Option Manifest := none
  response : Option IntroduceResponse := none
  nodeId : Option String := none
  sourceNodeId : Option String := none
  manifestUrl : Option String := none

structure SeedBootstrapReport where
  accepted : List SeedBootstrapOutcome := []
  rejected : List SeedBootstrapOutcome := []
  failed : List SeedBootstrapOutcome := []

def seedOutcome (seedManifestUrl reason : String) (seedManifest : Option Manifest)
    (response : Option IntroduceResponse) : SeedBootstrapOutcome :=
  { seedManifestUrl, reason, seedManifest, response, nodeId := seedManifest.map Manifest.nodeId,
    sourceNodeId := seedManifest.map Manifest.nodeId, manifestUrl := some seedManifestUrl }

/-- `bootstrap._failure_reason`, which unlike discovery's does not name a
`JSONDecodeError` as a malformed manifest. -/
def bootstrapFailureReason : Exc → String
  | .manifestVerificationError reason => if reason = "" then "bad_manifest" else reason
  | .validationError => "malformed_manifest"
  | exc => (transportFailureReason exc).getD exc.className

def introduceReason (response : IntroduceResponse) : String :=
  match response.reason with
  | some reason =>
    if reason = "" then (if response.accepted then "ok" else "rejected") else reason
  | none => if response.accepted then "ok" else "rejected"

def bootstrapSeed (P : Platform) (client : FederationClient) (policy : AdmissionPolicy)
    (maxSkewSeconds : Int) (seedUrl : String) (report : SeedBootstrapReport) :
    Py SeedBootstrapReport := do
  let failed (o : SeedBootstrapOutcome) :
    SeedBootstrapReport := { report with failed := report.failed ++ [o] }
  let rejected (o : SeedBootstrapOutcome) : SeedBootstrapReport :=
    { report with rejected := report.rejected ++ [o] }
  match ← (fetchManifest P client .bootstrap seedUrl maxSkewSeconds).attempt with
  | .error exc => return failed (seedOutcome seedUrl (bootstrapFailureReason exc) none none)
  | .ok seedManifest =>
    let decision ← admitManifest P .bootstrap seedManifest policy maxSkewSeconds
    if !decision.accepted then
      return rejected (seedOutcome seedUrl decision.reason (some seedManifest) none)
    match ← (introduce P .bootstrap seedManifest).attempt with
    | .error exc =>
      return failed (seedOutcome seedUrl (bootstrapFailureReason exc) (some seedManifest) none)
    | .ok response =>
      let outcome := seedOutcome seedUrl (introduceReason response) (some seedManifest)
        (some response)
      if response.accepted then return { report with accepted := report.accepted ++ [outcome] }
      return rejected outcome

def bootstrapFromSeeds (P : Platform) (client : FederationClient) (policy : AdmissionPolicy)
    (maxSkewSeconds : Int) : List String → SeedBootstrapReport → Py SeedBootstrapReport
  | [], report => return report
  | seedUrl :: seeds, report => do
    let report ← bootstrapSeed P client policy maxSkewSeconds seedUrl report
    bootstrapFromSeeds P client policy maxSkewSeconds seeds report

end Federlet
