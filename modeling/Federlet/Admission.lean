import Federlet.Net
import Federlet.Signing

/-! Local admission of a signed manifest and key continuity between two
revisions of one. Host callbacks are calls: they may suspend and may raise. -/

namespace Federlet

structure AdmissionPolicy where
  federationId : String
  protocolVersions : List String
  requireExpiresAt : Bool := true
  requireSignedHttp : Bool := true
  requireHttps : Bool := true
  allowPrivateHosts : Bool := false
  allowedEndpointDomains : List String := []
  evidenceVerifier : Option HostCallback := none
  authMethodVerifiers : Dict HostCallback := Keyed.empty

structure AdmissionDecision where
  accepted : Bool
  reason : String := "ok"
  deriving DecidableEq

structure KeyContinuityPolicy where
  allowKeyRotation : Bool := true
  evidenceVerifier : Option HostCallback := none

inductive KeyContinuityAction where
  | accept
  | quarantine
  | reject
  deriving DecidableEq

structure KeyContinuityDecision where
  action : KeyContinuityAction
  reason : String := "ok"
  deriving DecidableEq

def hostInDomain (P : Platform) (host domain : String) : Bool :=
  let host := (rstripDots (P.lower host)).toList
  let domain := (rstripDots (P.lower domain)).toList
  host == domain || ('.' :: domain).isSuffixOf host

def checkEndpoint (P : Platform) (endpoint : String) (policy : AdmissionPolicy) :
    Except Exc (Option String) := do
  let parsed ← urlsplit P endpoint
  let host := rstripDots (P.lower (parsed.hostname P))
  if host = "" then return some "bad_endpoint"
  if policy.requireHttps && parsed.scheme != "https".toList then return some "https_required"
  if !policy.allowedEndpointDomains.isEmpty &&
      !policy.allowedEndpointDomains.any (fun d => hostInDomain P host d) then
    return some "endpoint_domain_denied"
  match P.ipAddress host with
  | none => return none
  | some ip =>
    if !policy.allowPrivateHosts && isDisallowedIp ip then return some "private_endpoint_denied"
    return none

/-- The checks of `admit_manifest` between freshness and the callbacks. -/
def policyReason (policy : AdmissionPolicy) (manifest : Manifest) : Option String :=
  if policy.requireExpiresAt && manifest.expiresAt.isNone then some "missing_expires_at"
  else if policy.federationId ∉ manifest.federations then some "wrong_federation"
  else if !manifest.protocolVersions.any (fun v => decide (v ∈ policy.protocolVersions)) then
    some "unsupported_protocol"
  else if policy.requireSignedHttp && decide ("signed_http" ∉ manifest.authMethods) then
    some "signed_http_required"
  else none

def verifyAuthMethods (o : Origin) (policy : AdmissionPolicy) (manifest : Manifest) :
    List String → Py (Option String)
  | [] => return none
  | method :: rest =>
    match policy.authMethodVerifiers.lookup method with
    | none => verifyAuthMethods o policy manifest rest
    | some verifier => do
      let (ok, reason) ← hostCallback o verifier manifest
      if !ok then return some reason
      verifyAuthMethods o policy manifest rest

def admitManifest (P : Platform) (o : Origin) (manifest : Manifest) (policy : AdmissionPolicy)
    (maxSkewSeconds : Int) : Py AdmissionDecision := do
  let (ok, reason) ← checkManifest P o manifest maxSkewSeconds
  if !ok then return ⟨false, reason⟩
  if let some reason := policyReason policy manifest then return ⟨false, reason⟩
  if let some reason ← verifyAuthMethods o policy manifest manifest.authMethods then
    return ⟨false, reason⟩
  if let some reason ← raising (checkEndpoint P manifest.endpoint policy)
    then return ⟨false, reason⟩
  if let some verifier := policy.evidenceVerifier then
    let (ok, reason) ← hostCallback o verifier manifest
    if !ok then return ⟨false, reason⟩
  return { accepted := true }

/-- `{key.key_id: key.public_jwk for key in keys}`: the last key of an id wins. -/
def keyDict (keys : List PublicKey) : Dict JWK :=
  Keyed.ofList (keys.map (fun k => (k.keyId, k.publicJwk)))

def JWK.eq (a b : JWK) : Bool := Keyed.beqBy (fun x y => x.2 == y.2) a b

def sameKeys (a b : Dict JWK) : Bool := Keyed.beqBy (fun x y => JWK.eq x.2 y.2) a b

/-- `check_key_continuity` before it turns to an evidence verifier; `none` when
that is what decides. -/
def continuityByKeys (P : Platform) (oldManifest newManifest : Manifest)
    (policy : KeyContinuityPolicy) :
    Except Exc (Option KeyContinuityDecision) :=
  if oldManifest.nodeId ≠ newManifest.nodeId then .ok (some ⟨.reject, "node_id_changed"⟩)
  else if oldManifest.orgId ≠ newManifest.orgId then .ok (some ⟨.reject, "org_id_changed"⟩)
  else if sameKeys (keyDict oldManifest.publicKeys) (keyDict newManifest.publicKeys) then
    .ok (some { action := .accept })
  else if !policy.allowKeyRotation then .ok (some ⟨.reject, "rotation_denied"⟩)
  else
    match newManifest.signature with
    | none => .ok none
    | some signature =>
      match (keyDict oldManifest.publicKeys).lookup signature.keyId with
      | none => .ok none
      | some oldJwk => do
        if ← verifyModel P newManifest oldJwk then return some ⟨.accept, "signed_rotation"⟩
        return none

def checkKeyContinuity (P : Platform) (o : Origin) (oldManifest newManifest : Manifest)
    (policy : Option KeyContinuityPolicy) : Py KeyContinuityDecision := do
  let policy := policy.getD {}
  match ← raising (continuityByKeys P oldManifest newManifest policy) with
  | some decision => return decision
  | none =>
    if let some verifier := policy.evidenceVerifier then
      let (ok, reason) ← hostCallback o verifier newManifest
      if ok then return ⟨.accept, "admission_evidence"⟩
      if reason = "rotation_denied" then return ⟨.reject, reason⟩
    return ⟨.quarantine, "stale_manifest"⟩

end Federlet
