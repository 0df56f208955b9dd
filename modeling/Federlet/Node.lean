import Federlet.Discovery
import Federlet.Refresh

/-! The stateful facade: every operation of `FederationNode` that reads or writes
the membership table, the manifest cache or the manifest store. -/

namespace Federlet

/-- The node's own fields; `manifestStore` and `nonceCache` say whether one is injected. -/
structure FederationNode where
  nodeId : String
  federationId : String
  admissionPolicy : AdmissionPolicy
  manifestStore : Bool := false
  nonceCache : Bool := false
  allowPrivate : Bool := false

namespace FederationNode

variable (P : Platform) (node : FederationNode)

def client : FederationClient :=
  { nodeId := node.nodeId, federationId := node.federationId, allowPrivate := node.allowPrivate }

def rememberManifest (o : Origin) (manifest : Manifest) : Py Unit := do
  PeerManifests.put o manifest
  if node.manifestStore then ManifestStore.upsert o manifest

def forgetManifest (o : Origin) (nodeId : String) : Py Unit := do
  PeerManifests.pop o nodeId
  if node.manifestStore then ManifestStore.delete o nodeId

def hydrate : Py Unit := locked do
  if node.manifestStore then
    if ← PeerManifests.isEmpty .hydrate then
      let manifests ← ManifestStore.values .hydrate
      PeerManifests.replace .hydrate manifests

def verifyInbound (signatureHeader : Option String) (peerManifest : Manifest) (method path : String)
    (body : Bytes) (maxBodyBytes : Option Int) (maxSkewSeconds : Int) : Py VerifiedPeer :=
  verifyPeerRequest P signatureHeader peerManifest
    { selfNodeId := node.nodeId, method, path, body, maxBodyBytes, maxSkewSeconds,
      cache := node.nonceCache }

def verifyKnownInbound (signatureHeader : Option String) (sourceNodeId method path : String)
    (body : Bytes) (maxBodyBytes : Option Int) (maxSkewSeconds : Int) : Py VerifiedPeer := do
  match ← PeerManifests.get .inbound sourceNodeId with
  | none => throw (.unauthorizedPeerRequest "unknown_peer")
  | some peerManifest =>
    node.verifyInbound P signatureHeader peerManifest method path body maxBodyBytes maxSkewSeconds

/-- `_record_peer`; revocation is sticky here. -/
def recordPeer (o : Origin) (manifest : Manifest) (manifestUrl : String) : Py Unit :=
  locked do
    let existing ← MembershipTable.get o manifest.nodeId
    if existing.any (fun rec => decide (rec.state = .revoked)) then return
    node.rememberManifest o manifest
    let now ← utcNow o
    let record : MemberRecord :=
      { nodeId := manifest.nodeId, orgId := some manifest.orgId, manifestUrl,
        manifestRevision := manifest.revision }
    MembershipTable.upsert o (record.admitRecord none now)

def resolvedUrl (manifestUrl : Option String) (manifest : Manifest) : Option String :=
  match manifestUrl.filter (· ≠ "") with
  | some url => some url
  | none => manifest.manifestUrl

def admitPeer (manifest : Manifest) (manifestUrl : Option String) (maxSkewSeconds : Int) :
    Py AdmissionDecision := do
  let decision ← admitManifest P .admission manifest node.admissionPolicy maxSkewSeconds
  if decision.accepted then
    if let some url := resolvedUrl manifestUrl manifest then
      node.recordPeer .admission manifest url
  return decision

def recordSeeds : List SeedBootstrapOutcome → Py Unit
  | [] => return
  | outcome :: rest => do
    if let some manifest := outcome.seedManifest then
      node.recordPeer .bootstrap manifest outcome.seedManifestUrl
    recordSeeds rest

def bootstrapFromSeeds (seedManifestUrls : List String) (maxSkewSeconds : Int) :
    Py SeedBootstrapReport := do
  let report ← Federlet.bootstrapFromSeeds P node.client node.admissionPolicy maxSkewSeconds
    seedManifestUrls {}
  node.recordSeeds report.accepted
  return report

def rememberDiscovered : List DiscoveryOutcome → Py Unit
  | [] => return
  | outcome :: rest => do
    if let some manifest := outcome.manifest then
      locked (node.rememberManifest .discovery manifest)
    rememberDiscovered rest

def discover (maxSkewSeconds perPeerCap : Int) (since : Option String) :
    Py DiscoveryRefreshReport := do
  let ref ← PeerManifests.ref .discovery
  let report ← refreshDiscoveredMembers P node.client node.admissionPolicy maxSkewSeconds ref
    perPeerCap since
  node.rememberDiscovered report.accepted
  return report

def applyRefreshDecision (nodeId : String) (decision : ManifestRefreshDecision) : Py Unit :=
  locked do
    let rec? ← MembershipTable.get .refresh nodeId
    match decision.action with
    | .accept | .unchanged =>
      if let some manifest := decision.manifest then
        node.rememberManifest .refresh manifest
        if let some rec := rec? then
          let now ← utcNow .refresh
          MembershipTable.upsert .refresh
            ({ rec with manifestRevision := manifest.revision }.admitRecord none now)
    | .quarantine =>
      if let some rec := rec? then
        let now ← utcNow .refresh
        MembershipTable.upsert .refresh (rec.setState .staleManifest now)
    | .reject =>
      if let some rec := rec? then
        let now ← utcNow .refresh
        MembershipTable.upsert .refresh (rec.setState .rejected now)
      node.forgetManifest .refresh nodeId

def unknownPeer : ManifestRefreshDecision := { action := .reject, reason := "unknown_peer" }

def refreshPeer (nodeId : String) (keyContinuityPolicy : Option KeyContinuityPolicy)
    (maxSkewSeconds : Int) : Py ManifestRefreshDecision := do
  let rec? ← MembershipTable.get .refresh nodeId
  let manifest? ← PeerManifests.get .refresh nodeId
  match rec?, manifest? with
  | some rec, some manifest =>
    let decision ← refreshPeerManifest P node.client manifest rec.manifestUrl keyContinuityPolicy
      maxSkewSeconds
    node.applyRefreshDecision nodeId decision
    return decision
  | _, _ => return unknownPeer

/-- The loop of `refresh_all` that collects targets: a record without a cached
manifest is decided and applied at once. -/
def refreshTargets : List MemberRecord →
    Py (List (Manifest × String) × List (String × ManifestRefreshDecision))
  | [] => return ([], [])
  | rec :: records => do
    match ← PeerManifests.get .refresh rec.nodeId with
    | none =>
      node.applyRefreshDecision rec.nodeId unknownPeer
      let (targets, decisions) ← refreshTargets records
      return (targets, (rec.nodeId, unknownPeer) :: decisions)
    | some manifest =>
      let (targets, decisions) ← refreshTargets records
      return ((manifest, rec.manifestUrl) :: targets, decisions)

def applyRefreshDecisions : List (String × ManifestRefreshDecision) → Py Unit
  | [] => return
  | (nodeId, decision) :: rest => do
    node.applyRefreshDecision nodeId decision
    applyRefreshDecisions rest

def refreshAll (keyContinuityPolicy : Option KeyContinuityPolicy) (maxSkewSeconds : Int) :
    Py (Dict ManifestRefreshDecision) := do
  let records ← eligiblePeers .refresh
  let (targets, unknown) ← node.refreshTargets records
  let refreshed ← refreshAllManifests P node.client targets keyContinuityPolicy maxSkewSeconds
  let decisions : Dict ManifestRefreshDecision := Keyed.ofList (unknown ++ refreshed)
  node.applyRefreshDecisions decisions.entries
  return decisions

end FederationNode

def selfScopedAuthorize (notice : RevocationNotice) : Bool := notice.issuer == notice.revokedNodeId

/-- `membership.apply_revocation_notice` -/
def applyMembershipRevocationNotice (P : Platform) (notice : RevocationNotice)
    (federationId : String) (trustedIssuerKeys : Dict JWK) (authorize : RevocationNotice → Bool) :
    Py (Option PeerState) := do
  match ← MembershipTable.get .revocation notice.revokedNodeId with
  | none => return none
  | some rec =>
    match notice.signature with
    | none => return some rec.state
    | some signature =>
      if notice.federationId ≠ federationId then return some rec.state
      if !authorize notice then return some rec.state
      match trustedIssuerKeys.lookup signature.keyId with
      | none => return some rec.state
      | some jwk =>
        if !(← raising (verifyRevocationNotice P notice jwk)) then return some rec.state
        let now ← utcNow .revocation
        MembershipTable.upsert .revocation (rec.setState .revoked now)
        return some .revoked

def FederationNode.applyRevocationNotice (P : Platform) (node : FederationNode)
    (notice : RevocationNotice) (trustedIssuerKeys : Dict JWK)
    (authorize : RevocationNotice → Bool) :
    Py (Option PeerState) := locked do
  let state ← applyMembershipRevocationNotice P notice node.federationId trustedIssuerKeys authorize
  if state = some .revoked then node.forgetManifest .revocation notice.revokedNodeId
  return state

def selectFrom : List MemberRecord → Py (List Manifest)
  | [] => return []
  | rec :: records => do
    let manifest? ← PeerManifests.get .inbound rec.nodeId
    let rest ← selectFrom records
    return manifest?.toList ++ rest

/-- `FederationNode.select_peers` without an explicit time. -/
def selectPeers : Py (List Manifest) := do
  let records ← eligiblePeers .inbound
  selectFrom records

end Federlet
