import Federlet.Json
import Federlet.Time

/-! The wire models and their JSON dumps with `None` fields excluded. Extra
fields of the models that allow them are kept beside the declared ones, under
names the model does not declare. -/

namespace Federlet

abbrev JWK := Dict String

/-- Extra fields of a model that declares the given names. -/
structure Extra (declared : List String) where
  fields : Dict Json
  undeclared : ∀ kv ∈ fields.entries, kv.1 ∉ declared

instance (declared : List String) :
    Inhabited (Extra declared) := ⟨⟨Keyed.empty, by simp [Keyed.empty]⟩⟩

/-- `exclude_none` drops declared and extra fields alike. -/
def Extra.dump {declared : List String} (e : Extra declared) : List (String × Json) :=
  e.fields.entries.filter (fun kv => !kv.2.isNull)

structure Signature where
  keyId : String
  alg : String := "EdDSA"
  sig : String
  deriving DecidableEq

structure PublicKey where
  keyId : String
  use : String := "sig"
  alg : String := "EdDSA"
  publicJwk : JWK

structure Membership where
  introduceUrl : String
  membersUrl : String
  revocationsUrl : Option String := none
  extra : Extra ["introduce_url", "members_url", "revocations_url"] := default

structure Disclosure where
  default : String
  supportsPartnerScopes : Bool

structure ManifestLimits where
  maxOperationRpsPerPeer : Option Int := none
  maxOperationTimeoutMs : Option Int := none
  maxOperationItems : Option Int := none

inductive AdmissionEvidence where
  | domainProof (domain : String) (extra : Extra ["type", "domain"])
  | generic (type : String) (extra : Extra ["type"])

structure Manifest where
  nodeId : String
  orgId : String
  buId : Option String := none
  federations : List String := []
  endpoint : String
  manifestUrl : Option String := none
  protocolVersions : List String := []
  revision : Int := 0
  publicKeys : List PublicKey := []
  authMethods : List String := ["signed_http"]
  membership : Membership
  extensions : Dict Json := Keyed.empty
  admissionEvidence : Option AdmissionEvidence := none
  disclosure : Option Disclosure := none
  limits : Option ManifestLimits := none
  issuedAt : Option DateTime := none
  expiresAt : Option DateTime := none
  signature : Option Signature := none

structure IntroduceResponse where
  accepted : Bool
  acceptedNodeId : Option String := none
  acceptedManifestRevision : Option Int := none
  acceptedUntil : Option DateTime := none
  reason : Option String := none
  membershipCursor : Option String := none
  knownPeerCount : Option Int := none
  signature : Option Signature := none

structure MemberRef where
  nodeId : String
  orgId : Option String := none
  manifestUrl : String
  manifestRevision : Option Int := none
  disclosure : String := "federation"
  deriving DecidableEq

structure MembersResponse where
  sourceNodeId : String
  cursor : Option String := none
  members : List MemberRef := []
  signature : Option Signature := none
  deriving DecidableEq

structure RevocationNotice where
  federationId : String
  revokedNodeId : String
  reason : String
  issuedAt : DateTime
  expiresAt : Option DateTime := none
  issuer : String
  signature : Option Signature := none

structure RevocationsResponse where
  sourceNodeId : String
  cursor : Option String := none
  notices : List RevocationNotice := []
  signature : Option Signature := none

/-- Detached signed-request envelope sent alongside an HTTP call. -/
structure SignedRequest where
  federationId : String
  requestId : String
  sourceNodeId : String
  targetNodeId : String
  method : String
  path : String
  timestamp : DateTime
  nonce : String
  bodySha256 : String
  sourceManifestRevision : Int := 0
  signature : Option Signature := none

def serTs (d : DateTime) : Except Exc Json :=
  match isoZ d with
  | .ok s => .ok (.str s)
  | .error _ => .error .serializationError

theorem serTs_of_representable {d : DateTime} (h : d.utcRepresentable = true) :
    serTs d = .ok (.str (String.ofList (isoChars d.wholeSecond.toNat))) := by
  simp only [serTs, isoZ_of_representable h]

theorem serTs_error {d : DateTime} (h : d.utcRepresentable = false) :
    serTs d = .error .serializationError := by
  simp only [serTs, isoZ_error h]

theorem serTs_inj {d d' : DateTime} {s : String} (h : serTs d = .ok (.str s))
    (h' : serTs d' = .ok (.str s)) : d.wholeSecond = d'.wholeSecond := by
  unfold serTs at h h'
  cases hz : isoZ d with
  | error e => simp [hz] at h
  | ok t =>
    cases hz' : isoZ d' with
    | error e => simp [hz'] at h'
    | ok t' =>
      simp only [hz, hz', Except.ok.injEq, Json.str.injEq] at h h'
      exact isoZ_inj (h ▸ hz) (h' ▸ hz')

def optional {α : Type} (name : String) (render : α → Json) (a : Option α) : List (String × Json) :=
  a.toList.map (fun x => (name, render x))

def optionalTs (name : String) : Option DateTime → Except Exc (List (String × Json))
  | none => .ok []
  | some d => (serTs d).map (fun j => [(name, j)])

def strings (xs : List String) : Json := .arr (xs.map .str)

def Signature.toJson (s : Signature) : Json :=
  .obj [("key_id", .str s.keyId), ("alg", .str s.alg), ("sig", .str s.sig)]

def JWK.toJson (j : JWK) : Json := .obj (j.entries.map (fun kv => (kv.1, .str kv.2)))

def PublicKey.toJson (k : PublicKey) : Json :=
  .obj [("key_id", .str k.keyId), ("use", .str k.use), ("alg", .str k.alg),
    ("public_jwk", k.publicJwk.toJson)]

def Membership.toJson (m : Membership) : Json :=
  .obj ([("introduce_url", .str m.introduceUrl), ("members_url", .str m.membersUrl)] ++
    optional "revocations_url" .str m.revocationsUrl ++ m.extra.dump)

def Disclosure.toJson (d : Disclosure) : Json :=
  .obj [("default", .str d.default), ("supports_partner_scopes", .bool d.supportsPartnerScopes)]

def ManifestLimits.toJson (l : ManifestLimits) : Json :=
  .obj (optional "max_operation_rps_per_peer" .int l.maxOperationRpsPerPeer ++
    optional "max_operation_timeout_ms" .int l.maxOperationTimeoutMs ++
    optional "max_operation_items" .int l.maxOperationItems)

def AdmissionEvidence.toJson : AdmissionEvidence → Json
  | .domainProof domain extra =>
    .obj ([("type", .str "domain_proof"), ("domain", .str domain)] ++ extra.dump)
  | .generic type extra => .obj ([("type", .str type)] ++ extra.dump)

def MemberRef.toJson (r : MemberRef) : Json :=
  .obj ([("node_id", .str r.nodeId)] ++ optional "org_id" .str r.orgId ++
    [("manifest_url", .str r.manifestUrl)] ++ optional "manifest_revision" .int
    r.manifestRevision ++ [("disclosure", .str r.disclosure)])

class Model (M : Type) where
  dump : M → Except Exc (List (String × Json))

instance : Model Manifest where
  dump m := do
    let issuedAt ← optionalTs "issued_at" m.issuedAt
    let expiresAt ← optionalTs "expires_at" m.expiresAt
    return [("node_id", .str m.nodeId), ("org_id", .str m.orgId)] ++ optional "bu_id" .str m.buId ++
      [("federations", strings m.federations), ("endpoint", .str m.endpoint)] ++
      optional "manifest_url" .str m.manifestUrl ++
      [("protocol_versions", strings m.protocolVersions), ("revision", .int m.revision),
        ("public_keys", .arr (m.publicKeys.map PublicKey.toJson)),
        ("auth_methods", strings m.authMethods), ("membership", m.membership.toJson),
        ("extensions", .obj m.extensions.entries)] ++
      optional "admission_evidence" AdmissionEvidence.toJson m.admissionEvidence ++
      optional "disclosure" Disclosure.toJson m.disclosure ++
      optional "limits" ManifestLimits.toJson m.limits ++ issuedAt ++ expiresAt ++
      optional "signature" Signature.toJson m.signature

instance : Model IntroduceResponse where
  dump r := do
    let acceptedUntil ← optionalTs "accepted_until" r.acceptedUntil
    return [("accepted", .bool r.accepted)] ++ optional "accepted_node_id" .str r.acceptedNodeId ++
      optional "accepted_manifest_revision" .int r.acceptedManifestRevision ++ acceptedUntil ++
      optional "reason" .str r.reason ++ optional "membership_cursor" .str r.membershipCursor ++
      optional "known_peer_count" .int r.knownPeerCount ++
      optional "signature" Signature.toJson r.signature

instance : Model MembersResponse where
  dump r := .ok ([("source_node_id", .str r.sourceNodeId)] ++ optional "cursor" .str r.cursor ++
    [("members", .arr (r.members.map MemberRef.toJson))] ++
    optional "signature" Signature.toJson r.signature)

instance : Model RevocationNotice where
  dump n := do
    let issuedAt ← serTs n.issuedAt
    let expiresAt ← optionalTs "expires_at" n.expiresAt
    return [("federation_id", .str n.federationId), ("revoked_node_id", .str n.revokedNodeId),
      ("reason", .str n.reason), ("issued_at", issuedAt)] ++ expiresAt ++
      [("issuer", .str n.issuer)] ++ optional "signature" Signature.toJson n.signature

instance : Model RevocationsResponse where
  dump r := do
    let notices ← r.notices.mapM Model.dump
    return [("source_node_id", .str r.sourceNodeId)] ++ optional "cursor" .str r.cursor ++
      [("notices", .arr (notices.map .obj))] ++ optional "signature" Signature.toJson r.signature

def SignedRequest.fields (r : SignedRequest) (timestamp : Json) : List (String × Json) :=
  [("federation_id", .str r.federationId), ("request_id", .str r.requestId),
    ("source_node_id", .str r.sourceNodeId), ("target_node_id", .str r.targetNodeId),
    ("method", .str r.method), ("path", .str r.path), ("timestamp", timestamp),
    ("nonce", .str r.nonce), ("body_sha256", .str r.bodySha256),
    ("source_manifest_revision", .int r.sourceManifestRevision)]

instance : Model SignedRequest where
  dump r := do
    let timestamp ← serTs r.timestamp
    return r.fields timestamp ++ optional "signature" Signature.toJson r.signature

end Federlet
