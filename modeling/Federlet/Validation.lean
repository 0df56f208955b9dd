import Federlet.OperationEnvelopes

/-! `model_validate` of the wire models. The coercions of single values are those
of pydantic's lax mode, taken as given; what a field is called, what stands in for
it when it is missing and what becomes of fields a model does not declare follows
the models. -/

namespace Federlet

abbrev Reader (α : Type) := Json → Option α

/-- How pydantic reads single values, `none` for a validation error. -/
structure Scalars where
  bool : Reader Bool
  int : Reader Int
  datetime : Reader DateTime

theorem DateTime.second_in_calendar {second : Nat} (h : second < 3652059 * 86400) :
    0 ≤ (second * 1000000 : Int) ∧ (second * 1000000 : Int) < calendarMicros := by
  simp only [calendarMicros]
  omega

def DateTime.ofSecond (second : Nat) (h : second < 3652059 * 86400) : DateTime :=
  .utc (second * 1000000) (second_in_calendar h)

/-- A value is read from its own JSON, and a UTC time from its ISO text. -/
structure Scalars.Faithful (V : Scalars) : Prop where
  bool : ∀ b, V.bool (.bool b) = some b
  int : ∀ i, V.int (.int i) = some i
  datetime : ∀ second h, V.datetime (.str (String.ofList (isoChars second))) =
    some (.ofSecond second h)

def readStr : Reader String
  | .str s => some s
  | _ => none

def readList {α : Type} (read : Reader α) : Reader (List α)
  | .arr xs => xs.mapM read
  | _ => none

def readDict : Reader (Dict Json)
  | .obj kvs => some (Keyed.ofList kvs)
  | _ => none

def readObject {α : Type} (body : List (String × Json) → Option α) : Reader α
  | .obj kvs => body kvs
  | _ => none

def nullable {α : Type} (read : Reader α) : Reader (Option α)
  | .null => some none
  | j => (read j).map some

def required {α : Type} (kvs : List (String × Json)) (name : String) (read : Reader α) : Option α :=
  (kvs.lookup name).bind read

def defaulting {α : Type} (kvs : List (String × Json)) (name : String) (read : Reader α)
    (default : α) : Option α :=
  match kvs.lookup name with
  | none => some default
  | some j => read j

def extras (declared : List String) (kvs : List (String × Json)) : Extra declared where
  fields := Keyed.ofList (kvs.filter fun kv => kv.1 ∉ declared)
  undeclared kv hkv := by
    have hmem := Keyed.mem_of_mem_ofList hkv
    simpa using (List.mem_filter.mp hmem).2

def forbidding {α : Type} (declared : List String) (body : List (String × Json) → Option α)
    (kvs : List (String × Json)) : Option α :=
  if kvs.all fun kv => kv.1 ∈ declared then body kvs else none

def readJwk : Reader JWK
  | .obj kvs => (kvs.mapM fun kv => (readStr kv.2).map fun s => (kv.1, s)).map Keyed.ofList
  | _ => none

def Signature.read : Reader Signature := readObject fun kvs => do
  let keyId ← required kvs "key_id" readStr
  let alg ← defaulting kvs "alg" readStr "EdDSA"
  let sig ← required kvs "sig" readStr
  return { keyId, alg, sig }

def PublicKey.read : Reader PublicKey := readObject fun kvs => do
  let keyId ← required kvs "key_id" readStr
  let use ← defaulting kvs "use" readStr "sig"
  let alg ← defaulting kvs "alg" readStr "EdDSA"
  let publicJwk ← required kvs "public_jwk" readJwk
  return { keyId, use, alg, publicJwk }

def Membership.read : Reader Membership := readObject fun kvs => do
  let introduceUrl ← required kvs "introduce_url" readStr
  let membersUrl ← required kvs "members_url" readStr
  let revocationsUrl ← defaulting kvs "revocations_url" (nullable readStr) none
  return { introduceUrl, membersUrl, revocationsUrl, extra := extras _ kvs }

def readDomainProofType : Reader Unit
  | .str s => if s = "domain_proof" then some () else none
  | _ => none

def readDomainProof (kvs : List (String × Json)) : Option AdmissionEvidence := do
  let _ ← defaulting kvs "type" readDomainProofType ()
  let domain ← required kvs "domain" readStr
  return .domainProof domain (extras _ kvs)

def readGenericEvidence (kvs : List (String × Json)) : Option AdmissionEvidence := do
  let type ← required kvs "type" readStr
  return .generic type (extras _ kvs)

/-- Where both members of the union fit, the first is taken. -/
def AdmissionEvidence.read : Reader AdmissionEvidence := readObject fun kvs =>
  match readDomainProof kvs with
  | some evidence => some evidence
  | none => readGenericEvidence kvs

def MemberRef.read (V : Scalars) : Reader MemberRef := readObject fun kvs => do
  let nodeId ← required kvs "node_id" readStr
  let orgId ← defaulting kvs "org_id" (nullable readStr) none
  let manifestUrl ← required kvs "manifest_url" readStr
  let manifestRevision ← defaulting kvs "manifest_revision" (nullable V.int) none
  let disclosure ← defaulting kvs "disclosure" readStr "federation"
  return { nodeId, orgId, manifestUrl, manifestRevision, disclosure }

def PayloadProvenance.read : Reader PayloadProvenance := readObject fun kvs => do
  let nodeId ← required kvs "node_id" readStr
  let contentHash ← defaulting kvs "content_hash" (nullable readStr) none
  return { nodeId, contentHash, extra := extras _ kvs }

def Disclosure.read (V : Scalars) : Reader Disclosure := readObject fun kvs => do
  let default ← required kvs "default" readStr
  let supportsPartnerScopes ← required kvs "supports_partner_scopes" V.bool
  return { default, supportsPartnerScopes }

def ManifestLimits.read (V : Scalars) : Reader ManifestLimits := readObject fun kvs => do
  let maxOperationRpsPerPeer ← defaulting kvs "max_operation_rps_per_peer" (nullable V.int) none
  let maxOperationTimeoutMs ← defaulting kvs "max_operation_timeout_ms" (nullable V.int) none
  let maxOperationItems ← defaulting kvs "max_operation_items" (nullable V.int) none
  return { maxOperationRpsPerPeer, maxOperationTimeoutMs, maxOperationItems }

class Validated (M : Type) where
  read : Scalars → Reader M

instance : Validated Manifest where
  read V := readObject fun kvs => do
    let nodeId ← required kvs "node_id" readStr
    let orgId ← required kvs "org_id" readStr
    let buId ← defaulting kvs "bu_id" (nullable readStr) none
    let federations ← defaulting kvs "federations" (readList readStr) []
    let endpoint ← required kvs "endpoint" readStr
    let manifestUrl ← defaulting kvs "manifest_url" (nullable readStr) none
    let protocolVersions ← defaulting kvs "protocol_versions" (readList readStr) []
    let revision ← defaulting kvs "revision" V.int 0
    let publicKeys ← defaulting kvs "public_keys" (readList PublicKey.read) []
    let authMethods ← defaulting kvs "auth_methods" (readList readStr) ["signed_http"]
    let membership ← required kvs "membership" Membership.read
    let extensions ← defaulting kvs "extensions" readDict Keyed.empty
    let admissionEvidence ← defaulting kvs "admission_evidence"
      (nullable AdmissionEvidence.read) none
    let disclosure ← defaulting kvs "disclosure" (nullable (Disclosure.read V)) none
    let limits ← defaulting kvs "limits" (nullable (ManifestLimits.read V)) none
    let issuedAt ← defaulting kvs "issued_at" (nullable V.datetime) none
    let expiresAt ← defaulting kvs "expires_at" (nullable V.datetime) none
    let signature ← defaulting kvs "signature" (nullable Signature.read) none
    return { nodeId, orgId, buId, federations, endpoint, manifestUrl, protocolVersions, revision
             publicKeys, authMethods, membership, extensions, admissionEvidence, disclosure
             limits, issuedAt, expiresAt, signature }

instance : Validated IntroduceResponse where
  read V := readObject fun kvs => do
    let accepted ← required kvs "accepted" V.bool
    let acceptedNodeId ← defaulting kvs "accepted_node_id" (nullable readStr) none
    let acceptedManifestRevision ← defaulting kvs "accepted_manifest_revision" (nullable V.int) none
    let acceptedUntil ← defaulting kvs "accepted_until" (nullable V.datetime) none
    let reason ← defaulting kvs "reason" (nullable readStr) none
    let membershipCursor ← defaulting kvs "membership_cursor" (nullable readStr) none
    let knownPeerCount ← defaulting kvs "known_peer_count" (nullable V.int) none
    let signature ← defaulting kvs "signature" (nullable Signature.read) none
    return { accepted, acceptedNodeId, acceptedManifestRevision, acceptedUntil, reason
             membershipCursor, knownPeerCount, signature }

instance : Validated MembersResponse where
  read V := readObject fun kvs => do
    let sourceNodeId ← required kvs "source_node_id" readStr
    let cursor ← defaulting kvs "cursor" (nullable readStr) none
    let members ← defaulting kvs "members" (readList (MemberRef.read V)) []
    let signature ← defaulting kvs "signature" (nullable Signature.read) none
    return { sourceNodeId, cursor, members, signature }

instance : Validated RevocationNotice where
  read V := readObject fun kvs => do
    let federationId ← required kvs "federation_id" readStr
    let revokedNodeId ← required kvs "revoked_node_id" readStr
    let reason ← required kvs "reason" readStr
    let issuedAt ← required kvs "issued_at" V.datetime
    let expiresAt ← defaulting kvs "expires_at" (nullable V.datetime) none
    let issuer ← required kvs "issuer" readStr
    let signature ← defaulting kvs "signature" (nullable Signature.read) none
    return { federationId, revokedNodeId, reason, issuedAt, expiresAt, issuer, signature }

instance : Validated RevocationsResponse where
  read V := readObject fun kvs => do
    let sourceNodeId ← required kvs "source_node_id" readStr
    let cursor ← defaulting kvs "cursor" (nullable readStr) none
    let notices ← defaulting kvs "notices" (readList (Validated.read V)) []
    let signature ← defaulting kvs "signature" (nullable Signature.read) none
    return { sourceNodeId, cursor, notices, signature }

instance : Validated SignedRequest where
  read V := readObject fun kvs => do
    let federationId ← required kvs "federation_id" readStr
    let requestId ← required kvs "request_id" readStr
    let sourceNodeId ← required kvs "source_node_id" readStr
    let targetNodeId ← required kvs "target_node_id" readStr
    let method ← required kvs "method" readStr
    let path ← required kvs "path" readStr
    let timestamp ← required kvs "timestamp" V.datetime
    let nonce ← required kvs "nonce" readStr
    let bodySha256 ← required kvs "body_sha256" readStr
    let sourceManifestRevision ← defaulting kvs "source_manifest_revision" V.int 0
    let signature ← defaulting kvs "signature" (nullable Signature.read) none
    return { federationId, requestId, sourceNodeId, targetNodeId, method, path, timestamp, nonce
             bodySha256, sourceManifestRevision, signature }

def OperationItem.readFields (kvs : List (String × Json)) : Option OperationItem := do
  let payload ← defaulting kvs "payload" readDict Keyed.empty
  let provenance ← defaulting kvs "provenance" (nullable PayloadProvenance.read) none
  let signature ← defaulting kvs "signature" (nullable Signature.read) none
  return { payload, provenance, signature }

instance : Validated OperationItem where
  read _ := readObject (forbidding ["payload", "provenance", "signature"] OperationItem.readFields)

def OperationResponse.readFields (V : Scalars) (kvs : List (String × Json)) :
    Option OperationResponse := do
  let operationId ← required kvs "operation_id" readStr
  let sourceNodeId ← required kvs "source_node_id" readStr
  let payload ← defaulting kvs "payload" readDict Keyed.empty
  let items ← defaulting kvs "items" (readList (Validated.read V)) []
  let metadata ← defaulting kvs "metadata" readDict Keyed.empty
  let signature ← defaulting kvs "signature" (nullable Signature.read) none
  return { operationId, sourceNodeId, payload, items, metadata, signature }

instance : Validated OperationResponse where
  read V :=
    readObject
      (forbidding ["operation_id", "source_node_id", "payload", "items", "metadata", "signature"]
    (OperationResponse.readFields V))

def digitValue (c : Char) : Nat := c.toNat - 48

def decimal (cs : List Char) : Nat := cs.foldl (fun n c => n * 10 + digitValue c) 0

theorem digitValue_digit (n : Nat) : digitValue (digit n) = n % 10 := by
  have key : ∀ i < 10, digitValue (Char.ofNat (48 + i)) = i := by decide
  exact key _ (Nat.mod_lt _ (by decide))

theorem decimal_pad2 {n : Nat} (h : n < 100) : decimal (pad2 n) = n := by
  simp only [decimal, pad2, List.foldl_cons, List.foldl_nil, digitValue_digit]
  omega

theorem decimal_pad4 {n : Nat} (h : n < 10000) : decimal (pad4 n) = n := by
  simp only [decimal, pad4, List.foldl_cons, List.foldl_nil, digitValue_digit]
  omega

/-- The second a text of the form `YYYY-MM-DDTHH:MM:SSZ` names. -/
def isoSecond (cs : List Char) : Nat :=
  (ymdToOrd (decimal (cs.take 4)) (decimal ((cs.drop 5).take 2))
    (decimal ((cs.drop 8).take 2)) - 1) * 86400 +
    decimal ((cs.drop 11).take 2) * 3600 + decimal ((cs.drop 14).take 2) * 60 + decimal
    ((cs.drop 17).take 2)

theorem isoSecond_isoChars {second : Nat} (h : second < 3652059 * 86400) :
    isoSecond (isoChars second) = second := by
  have hyear := ordToYmd_year_lt (n := second / 86400 + 1) (by omega)
  have hday := ordToYmd_day_lt (second / 86400 + 1)
  have hordinal := ymdToOrd_ordToYmd (n := second / 86400 + 1) (by omega)
  have hsplit : isoSecond (isoChars second) =
      (ymdToOrd (decimal (pad4 (ordToYmd (second / 86400 + 1)).1))
        (decimal (pad2 (ordToYmd (second / 86400 + 1)).2.1))
        (decimal (pad2 (ordToYmd (second / 86400 + 1)).2.2)) - 1) * 86400 + decimal
      (pad2 (second % 86400 / 3600)) * 3600 + decimal (pad2 (second % 86400 / 60 % 60)) * 60 +
        decimal (pad2 (second % 86400 % 60)) := rfl
  rw [hsplit, decimal_pad4 hyear, decimal_pad2 hday.1, decimal_pad2 hday.2, hordinal,
    decimal_pad2 (by omega), decimal_pad2 (by omega), decimal_pad2 (by omega)]
  omega

def readIso (cs : List Char) : Option DateTime :=
  if h : isoSecond cs < 3652059 * 86400 ∧
    isoChars (isoSecond cs) = cs then some (.ofSecond (isoSecond cs) h.1)
  else none

theorem readIso_isoChars (second : Nat) (h : second < 3652059 * 86400) :
    readIso (isoChars second) = some (.ofSecond second h) := by
  have hsecond := isoSecond_isoChars h
  simp only [readIso, hsecond, h, and_self, ↓reduceDIte]

def strictScalars : Scalars where
  bool
    | .bool b => some b
    | _ => none
  int
    | .int i => some i
    | _ => none
  datetime
    | .str s => readIso s.toList
    | _ => none

theorem strictScalars_faithful : strictScalars.Faithful where
  bool _ := rfl
  int _ := rfl
  datetime second h := by
    simp only [strictScalars, String.toList_ofList, readIso_isoChars second h]

end Federlet
