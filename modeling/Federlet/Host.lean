import Federlet.Library.Handlers
import Federlet.Calls
import Federlet.Publication

/-! The example host. Its nodes keep the peers they trust in a dictionary, answer
introductions and requests for their members, and remember nonces without end. Each
request is handled by a thread of its own; what a thread asks of the shared state is a
call, and so is every step of its nonce cache. -/

namespace Federlet

open Coop

def federationId : String := "example-federation"

def protocolVersion : String := "example-federation/1"

def manifestPath : String := "/manifest.json"

/-- What a thread asks for. The library's own calls are as they are, but for the nonce
cache, which is the host's. -/
inductive HostOp where
  | library (call : Call)
  | nonceSeen (key : String)
  | nonceAdd (key : String)
  | trustedGet (nodeId : String)
  | trustedPut (peer : Manifest)
  | trustedValues

@[reducible] def HostOp.Resp : HostOp → Type
  | .library call => Federlet.Resp call
  | .nonceSeen _ => Bool
  | .nonceAdd _ | .trustedPut _ => Unit
  | .trustedGet _ => Option Manifest
  | .trustedValues => List Manifest

abbrev HostTask (α : Type) := Task HostOp HostOp.Resp α

abbrev HostPy (α : Type) := Task.Raising Exc HostOp HostOp.Resp α

structure HostState where
  clock : DateTime
  trustedPeers : Keyed Manifest.nodeId := .empty
  seen : List String := []

/-- Only the clock and the nonce cache are asked for by what the host uses. -/
instance (call : Call) : Inhabited (Resp call) := by
  obtain ⟨_, op⟩ := call
  cases op
  case utcNow => exact ⟨newYear2026⟩
  case httpGet | httpRequest => exact ⟨.error .timeoutError⟩
  all_goals infer_instance

def HostState.libraryAnswer (s : HostState) : (call : Call) → Resp call
  | ⟨_, .utcNow⟩ => s.clock
  | _ => default

def HostState.handle : (op : HostOp) → HostState → op.Resp × HostState
  | .library call, s => (s.libraryAnswer call, s)
  | .nonceSeen key, s => (decide (key ∈ s.seen), s)
  | .nonceAdd key, s => ((), { s with seen := key :: s.seen })
  | .trustedGet nodeId, s => (s.trustedPeers.get nodeId, s)
  | .trustedPut peer, s => ((), { s with trustedPeers := s.trustedPeers.upsert peer })
  | .trustedValues, s => (s.trustedPeers.entries, s)

def memoryNonceSet (key : String) (exist : Option Bool) : HostTask Bool :=
  let add : HostTask Bool := .call (.nonceAdd key) fun _ => .done true
  if exist = some false then .call (.nonceSeen key) fun seen => if seen then .done false else add
  else add

/-- The library in this host; it claims its nonces with `exist=False`. -/
def hosted : (call : Call) → HostTask (Resp call)
  | ⟨_, .nonceSet key _⟩ =>
    (memoryNonceSet key (some false)).bind fun claimed => .done (.ok claimed)
  | call => .call (.library call) fun r => .done r

def inHost {α : Type} (t : Py α) : HostPy α := ExceptT.mk (t.run.through hosted)

def trustedGet (nodeId : String) : HostPy (Option Manifest) :=
  ExceptT.mk (.call (.trustedGet nodeId) fun r => .done (.ok r))

def trustedPut (peer : Manifest) :
    HostPy Unit := ExceptT.mk (.call (.trustedPut peer) fun r => .done (.ok r))

def trustedValues : HostPy (List Manifest) :=
  ExceptT.mk (.call .trustedValues fun r => .done (.ok r))

instance : Validated IntroduceRequest where
  read V := readObject fun kvs => do
    let federationId ← required kvs "federation_id" readStr
    let manifestUrl ← required kvs "manifest_url" readStr
    let manifest ← required kvs "manifest" (Validated.read V)
    let requestedDisclosure ← defaulting kvs "requested_disclosure" readStr "federation"
    let nonce ← required kvs "nonce" readStr
    let timestamp ← required kvs "timestamp" V.datetime
    return { federationId, manifestUrl, manifest, requestedDisclosure, nonce, timestamp }

def signMembersResponse (P : Platform) (V : Scalars) (response : MembersResponse)
    (key : Ed25519PrivateKey) (keyId : String) :
    Except Exc MembersResponse := signModel P V response key keyId

def signIntroduceResponse (P : Platform) (V : Scalars) (response : IntroduceResponse)
    (key : Ed25519PrivateKey) (keyId : String) : Except Exc IntroduceResponse :=
  signModel P V response key keyId

structure ExampleNode where
  nodeId : String
  orgId : String
  key : Ed25519PrivateKey
  manifest : Option Manifest := none

inductive HttpMethod where
  | get
  | post

/-- A request as the host's server reads it; `path` is the target on its first line. -/
structure HttpRequest where
  method : HttpMethod
  path : String
  signatureHeader : Option String := none
  body : Bytes := []

abbrev HttpAnswer := Nat × List (String × Json)

def peerRef (peer : Manifest) : MemberRef :=
  { nodeId := peer.nodeId, orgId := some peer.orgId
    manifestUrl := (peer.manifestUrl.filter (· ≠ "")).getD peer.endpoint
    manifestRevision := some peer.revision }

def assertionError : Exc := .other "AssertionError"

def refusal (reason : String) :
    List (String × Json) := [("accepted", .bool false), ("reason", .str reason)]

namespace ExampleNode

variable (P : Platform) (V : Scalars) (decode : Bytes → Option Json) (node : ExampleNode)

def keyId : String := node.nodeId ++ "-k1"

def publishAt (endpoint manifestUrl : String) (now : DateTime) : Except Exc ExampleNode := do
  let manifest ← buildSignedManifest P V node.key node.keyId
    { nodeId := node.nodeId, orgId := node.orgId, endpoint, federations := [Federlet.federationId]
      protocolVersions := [protocolVersion], manifestUrl := some manifestUrl } now
  return { node with manifest := some manifest }

def signedMembersResponse : HostPy (List (String × Json)) := do
  let some _ := node.manifest | throw assertionError
  let peers ← trustedValues
  let response ← Task.Raising.lift (signMembersResponse P V
    { sourceNodeId := node.nodeId, members := peers.map peerRef } node.key node.keyId)
  Task.Raising.lift (Model.dump response)

def inbound (method path : String) (body : Bytes) : Inbound :=
  { selfNodeId := node.nodeId, method, path, body, cache := true }

def authenticateKnownPeer (signatureHeader : Option String) (method path : String) (body : Bytes) :
    HostPy (Bool × String) := do
  let some header := signatureHeader.filter (· ≠ "") | return (false, "missing_signature")
  let some envelope := P.parseSignedRequest header | return (false, "malformed_envelope")
  let some peer ← trustedGet envelope.sourceNodeId | return (false, "unknown_peer")
  match ← (inHost (verifyPeerRequest P signatureHeader peer
    (node.inbound method path body))).attempt with
  | .error (.unauthorizedPeerRequest reason) => return (false, reason)
  | .error exc => throw exc
  | .ok _ => return (true, "ok")

def handleMembers (signatureHeader : Option String) : HostPy HttpAnswer := do
  let (ok, reason) ← node.authenticateKnownPeer P signatureHeader "GET" "/federation/v1/members" []
  if !ok then return (401, [("error", .str reason)])
  let payload ← node.signedMembersResponse P V
  return (200, payload)

def handleIntroduce (body : Bytes) (signatureHeader : Option String) : HostPy HttpAnswer := do
  let some intro := (decode body).bind (Validated.read V : Reader IntroduceRequest)
    | throw .validationError
  let (ok, reason) ← inHost (checkManifest P .inbound intro.manifest 300)
  if !ok then return (400, refusal ("manifest_" ++ reason))
  match ← (inHost (verifyPeerRequest P signatureHeader intro.manifest
      (node.inbound "POST" "/federation/v1/members/introduce" body))).attempt with
  | .error (.unauthorizedPeerRequest reason) => return (401, refusal reason)
  | .error exc => throw exc
  | .ok _ =>
    trustedPut intro.manifest
    let peers ← trustedValues
    let response ← Task.Raising.lift (signIntroduceResponse P V
      { accepted := true, acceptedNodeId := some intro.manifest.nodeId
        acceptedManifestRevision := some intro.manifest.revision
        knownPeerCount := some peers.length } node.key node.keyId)
    let payload ← Task.Raising.lift (Model.dump response)
    return (200, payload)

def serve (request : HttpRequest) : HostPy HttpAnswer :=
  match request.method with
  | .get => do
    let some manifest := node.manifest | throw assertionError
    if request.path = manifestPath then
      let payload ← Task.Raising.lift (Model.dump manifest)
      return (200, payload)
    else if request.path = "/federation/v1/members" then
      node.handleMembers P V request.signatureHeader
    else return (404, [("error", .str "not_found")])
  | .post =>
    if request.path = "/federation/v1/members/introduce" then
      node.handleIntroduce P V decode request.body request.signatureHeader
    else return (404, [("error", .str "not_found")])

end ExampleNode

end Federlet
