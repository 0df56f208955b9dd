import Federlet.Library.Gather
import Federlet.Relays

/-! The calls of a client, down to what they sign and send. A client draws the time and
two UUIDs, prepares one signed request, sends it and judges the answer. -/

namespace Federlet

open Coop

structure OperationRequest where
  operationId : String
  operation : String
  payload : Dict Json := Keyed.empty
  metadata : Dict Json := Keyed.empty

instance : Model OperationRequest where
  dump r := .ok [("operation_id", .str r.operationId), ("operation", .str r.operation),
    ("payload", .obj r.payload.entries), ("metadata", .obj r.metadata.entries)]

structure IntroduceRequest where
  federationId : String
  manifestUrl : String
  manifest : Manifest
  requestedDisclosure : String := "federation"
  nonce : String
  timestamp : DateTime

instance : Model IntroduceRequest where
  dump r := do
    let manifest ← Model.dump r.manifest
    let timestamp ← serTs r.timestamp
    return [("federation_id", .str r.federationId), ("manifest_url", .str r.manifestUrl),
      ("manifest", .obj manifest), ("requested_disclosure", .str r.requestedDisclosure),
        ("nonce", .str r.nonce), ("timestamp", timestamp)]

structure ProtocolResponse where
  protocolVersions : List String := []
  authMethods : List String := []
  nodeId : Option String := none
  manifestRevision : Option Int := none
  limits : Option ManifestLimits := none
  extra : Extra ["protocol_versions", "auth_methods", "node_id", "manifest_revision", "limits"] :=
    default

instance : Validated ProtocolResponse where
  read V := readObject fun kvs => do
    let protocolVersions ← defaulting kvs "protocol_versions" (readList readStr) []
    let authMethods ← defaulting kvs "auth_methods" (readList readStr) []
    let nodeId ← defaulting kvs "node_id" (nullable readStr) none
    let manifestRevision ← defaulting kvs "manifest_revision" (nullable V.int) none
    let limits ← defaulting kvs "limits" (nullable (ManifestLimits.read V)) none
    return { protocolVersions, authMethods, nodeId, manifestRevision, limits,
             extra := extras _ kvs }

structure HealthResponse where
  status : String := "ok"
  nodeId : Option String := none
  extra : Extra ["status", "node_id"] := default

instance : Validated HealthResponse where
  read _ := readObject fun kvs => do
    let status ← defaulting kvs "status" readStr "ok"
    let nodeId ← defaulting kvs "node_id" (nullable readStr) none
    return { status, nodeId, extra := extras _ kvs }

/-- What a client asks of its environment. `expired` is the timer of a `wait_for`
around the call, looked at wherever the call waits. -/
inductive ClientOp where
  | draw
  | http (request : OutgoingRequest)
  | expired

@[reducible] def ClientOp.Resp : ClientOp → Type
  | .draw => Draw
  | .http _ => Except Exc Response
  | .expired => Bool

abbrev ClientPy (α : Type) := Task.Raising Exc ClientOp ClientOp.Resp α

def uuidsAndTime : ClientPy Draw := ExceptT.mk (.call .draw fun draw => .done (.ok draw))

def sendHttp (request : OutgoingRequest) :
    ClientPy Response := ExceptT.mk (.call (.http request) fun r => .done r)

def rstripSlashes (s : String) :
    String := String.ofList (s.toList.reverse.dropWhile (· = '/')).reverse

def sinceParams (since : Option String) : List (String × String) :=
  (since.filter (· ≠ "")).toList.map fun since => ("since", since)

def replyOf {M : Type} [Validated M] (V : Scalars) (r : Response) : Except Exc M := do
  let body ← r.json
  (Validated.read V body).elim (.error .validationError) .ok

/-- The model in a response, if the peer signed it. -/
def signedReply {M : Type} [Model M] [Validated M] (P : Platform) (V : Scalars)
    (signatureOf : M → Option Signature) (peer : Manifest) (r : Response) : Except Exc M := do
  let resp ← replyOf V r
  if !(← verifyResponseSignature P peer (signatureOf resp) resp) then
    throw (.responseSignatureError "bad_signature")
  return resp

namespace SigningClient

variable (P : Platform) (V : Scalars) (encode : Json → Bytes) (client : SigningClient)

def send (targetNodeId method url : String) (body : Bytes) (params : List (String × String)) :
    ClientPy Response := do
  let draw ← uuidsAndTime
  let request ← Task.Raising.lift
    (prepareRequest P V client targetNodeId method url body params draw)
  let r ← sendHttp request
  Task.Raising.lift r.raiseForStatus
  return r

def introduce (peer : Manifest) (intro : IntroduceRequest) : ClientPy IntroduceResponse := do
  let body ← Task.Raising.lift (Model.dump intro)
  let r ← client.send P V peer.nodeId "POST" peer.membership.introduceUrl (encode (.obj body)) []
  Task.Raising.lift (signedReply P V IntroduceResponse.signature peer r)

def getMembers (peer : Manifest) (since : Option String) : ClientPy MembersResponse := do
  let r ← client.send P V peer.nodeId "GET" peer.membership.membersUrl [] (sinceParams since)
  Task.Raising.lift (signedReply P V MembersResponse.signature peer r)

def getRevocations (peer : Manifest) (since : Option String) : ClientPy RevocationsResponse := do
  let some url := peer.membership.revocationsUrl | throw .missingRevocationsEndpointError
  let r ← client.send P V peer.nodeId "GET" url [] (sinceParams since)
  Task.Raising.lift (signedReply P V RevocationsResponse.signature peer r)

def sendOperation (peer : Manifest) (request : OperationRequest) (operationsUrl : String) :
    ClientPy OperationResponse := do
  let body ← Task.Raising.lift (Model.dump request)
  let r ← client.send P V peer.nodeId "POST" operationsUrl (encode (.obj body)) []
  Task.Raising.lift (signedReply P V OperationResponse.signature peer r)

def getProtocol (peer : Manifest) : ClientPy ProtocolResponse := do
  let r ← client.send P V peer.nodeId "GET" (rstripSlashes peer.endpoint ++ "/protocol") [] []
  Task.Raising.lift (replyOf V r)

def getHealth (peer : Manifest) : ClientPy HealthResponse := do
  let r ← client.send P V peer.nodeId "GET" (rstripSlashes peer.endpoint ++ "/health") [] []
  Task.Raising.lift (replyOf V r)

end SigningClient

section Replies

variable {P : Platform} {V : Scalars} {peer : Manifest}

theorem signedReply_eq_ok_iff {M : Type} [Model M] [Validated M]
    {signatureOf : M → Option Signature} {r : Response} {resp : M} :
    signedReply P V signatureOf peer r = .ok resp ↔
      replyOf V r = .ok resp ∧ verifyResponseSignature P peer (signatureOf resp) resp =
        .ok true := by
  cases hr : replyOf (M := M) V r with
  | error e => simp [signedReply, hr, bind, Except.bind]
  | ok m =>
    cases hv : verifyResponseSignature P peer (signatureOf m) m with
    | error e =>
      simp only [signedReply, hr, hv, bind, Except.bind]
      constructor
      · rintro ⟨⟩
      · rintro ⟨⟨⟩, h⟩
        simp [hv] at h
    | ok b =>
      cases b with
      | true =>
        simp only [signedReply, hr, hv, bind, Except.bind]
        constructor
        · rintro ⟨⟩
          exact ⟨rfl, hv⟩
        · rintro ⟨⟨⟩, -⟩
          rfl
      | false =>
        simp only [signedReply, hr, hv, bind, Except.bind]
        constructor
        · rintro ⟨⟩
        · rintro ⟨⟨⟩, h⟩
          simp [hv] at h

/-- What a client makes of a response its peer signed. -/
theorem WireType.signedReply_ok (hV : V.Faithful)
    (hcanon : ∀ a b, a.Same b → P.rfc8785Dumps a = P.rfc8785Dumps b) {key : Ed25519PrivateKey}
    (hkey : key.Ideal P) {keyId : String} {t : WireType} {m signed received : t.Value}
    (hsigned : signModel P V m key keyId = .ok signed) {payload : List (String × Json)}
    (hdump : Model.dump signed = .ok payload) (hsent : overWire V signed = .ok received)
    (hlisted : findJwk peer.publicKeys keyId = some (publicJwk key)) :
    signedReply P V t.signature peer { raiseForStatus := .ok (), json := .ok (.obj payload) } =
      .ok received := by
  have hread : Validated.read V (.obj payload) = some received := by
    rw [overWire, hdump] at hsent
    exact elim_ok_iff.mp hsent
  obtain ⟨sig, hsignature⟩ := WireType.signed_signature hV hsigned (.single hsent)
  refine signedReply_eq_ok_iff.mpr ⟨by simp [replyOf, hread, bind, Except.bind], ?_⟩
  simp only [hsignature, verifyResponseSignature, hlisted]
  exact (t.settles hV).signed hcanon hkey hsigned (.single hsent)

end Replies

section Calls

variable {P : Platform} {V : Scalars} {client : SigningClient} {S α : Type}
  {sem : Sem ClientOp ClientOp.Resp S} {background : S → S → Prop}

/-- What becomes of a request once it is prepared. -/
def afterSending (f : Response → Except Exc α) (out : OutgoingRequest) :
    Task ClientOp ClientOp.Resp (Except Exc α) :=
  .call (.http out) fun r => .done (r >>= fun r => r.raiseForStatus >>= fun _ => f r)

def oneRequest (f : Response → Except Exc α) (prepare : Draw → Except Exc OutgoingRequest) :
    Task ClientOp ClientOp.Resp (Except Exc α) :=
  .call .draw fun draw =>
    match prepare draw with
    | .error e => .done (.error e)
    | .ok out => afterSending f out

theorem oneRequest_eq (f : Response → Except Exc α) (prepare : Draw → Except Exc OutgoingRequest) :
    ∃ next, oneRequest f prepare = .call .draw next ∧
      ∀ draw out, prepare draw = .ok out → next draw = afterSending f out :=
  ⟨_, rfl, fun draw out hp => by simp only [hp]⟩

theorem oneRequest_replays {f : Response → Except Exc α}
    {prepare : Draw → Except Exc OutgoingRequest} {draw : Draw} {out : OutgoingRequest}
    {r : Response} {a : α} (hprepare : prepare draw = .ok out) (hstatus : r.raiseForStatus = .ok ())
    (hjudged : f r = .ok a) :
    (oneRequest f prepare).Replays [⟨.draw, draw⟩, ⟨.http out, .ok r⟩] (.ok a) := by
  refine ⟨draw, _, rfl, ?_⟩
  simp only [hprepare]
  exact ⟨.ok r, _, rfl, rfl, by simp [bind, Except.bind, hstatus, hjudged]⟩

theorem send_run (f : Response → Except Exc α) (targetNodeId method url : String) (body : Bytes)
    (params : List (String × String)) :
    (client.send P V targetNodeId method url body params >>= fun r => Task.Raising.lift (f r)).run =
      oneRequest f (prepareRequest P V client targetNodeId method url body params) := by
  rw [Task.run_bind, SigningClient.send, Task.run_bind]
  refine congrArg (Task.call _) (funext fun draw => ?_)
  cases hp : prepareRequest P V client targetNodeId method url body params draw with
  | error e => simp [Task.run_lift, hp]
  | ok out =>
    simp only [Task.done_bind, Task.andThen_ok, Task.run_bind, Task.run_lift, hp]
    refine congrArg (Task.call _) (funext fun r => ?_)
    cases r with
    | error e => rfl
    | ok r => cases hs : r.raiseForStatus <;> simp [hs, bind, Except.bind] <;> rfl

end Calls

end Federlet
