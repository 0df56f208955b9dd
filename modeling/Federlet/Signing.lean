import Federlet.World

/-! Manifest and signed-request verification. The clock is read once, before the
checks that need it: nothing suspends in between. `total_seconds()` is kept as an
exact number of microseconds. -/

namespace Federlet

open Coop

def checkBodySize (body : Bytes) (maxBytes : Option Int) : Bool :=
  match maxBytes with
  | none => true
  | some n => decide ((body.length : Int) ≤ n)

def findJwk (keys : List PublicKey) (keyId : String) : Option JWK :=
  (keys.find? (fun k => k.keyId == keyId)).map PublicKey.publicJwk

def Json.subscript (j : Json) (k : String) : Except Exc Json :=
  match j with
  | .obj kvs =>
    match kvs.lookup k with
    | some v => .ok v
    | none => .error .keyError
  | _ => .error .typeError

def verifyDict (P : Platform) (payload : List (String × Json)) (jwk : JWK) : Except Exc Bool :=
  match payload.lookup "signature" with
  | none => .ok false
  | some sig =>
    if !sig.truthy then .ok false
    else do
      let s ← sig.subscript "sig"
      let data ← canonicalBytes P (.obj (payload.filter (fun kv => kv.1 ≠ "signature")))
      match s with
      | .str s => verifyBytes P jwk s data
      | _ => .error .typeError

def verifyModel {M : Type} [Model M] (P : Platform) (model : M) (jwk : JWK) : Except Exc Bool := do
  let payload ← Model.dump model
  verifyDict P payload jwk

def checkManifestAt (P : Platform) (manifest : Manifest) (now : DateTime) (maxSkewSeconds : Int) :
    Except Exc (Bool × String) :=
  match manifest.signature with
  | none => .ok (false, "unsigned")
  | some signature =>
    match findJwk manifest.publicKeys signature.keyId with
    | none => .ok (false, "unknown_key")
    | some jwk => do
      if !(← verifyModel P manifest jwk) then return (false, "bad_signature")
      let skew ← TimeDelta.ofSeconds maxSkewSeconds
      if let some expiresAt := manifest.expiresAt then
        if (← expiresAt.add skew).instant < now.instant then return (false, "expired")
      if let some issuedAt := manifest.issuedAt then
        if now.instant < (← issuedAt.sub skew).instant then return (false, "not_yet_valid")
      return (true, "ok")

def checkManifest (P : Platform) (o : Origin) (manifest : Manifest) (maxSkewSeconds : Int) :
    Py (Bool × String) := do
  let now ← utcNow o
  raising (checkManifestAt P manifest now maxSkewSeconds)

def verifyResponseSignature {M : Type} [Model M] (P : Platform) (peerManifest : Manifest)
    (signature : Option Signature) (response : M) : Except Exc Bool :=
  match signature with
  | none => .ok false
  | some signature =>
    match findJwk peerManifest.publicKeys signature.keyId with
    | none => .ok false
    | some jwk => verifyModel P response jwk

def verifyRevocationNotice (P : Platform) (notice : RevocationNotice) (jwk : JWK) :
    Except Exc Bool :=
  verifyModel P notice jwk

def nonceCacheKey (env : SignedRequest) : String :=
  "federlet:nonce:" ++ env.federationId ++ ":" ++ env.sourceNodeId ++ ":" ++
    env.targetNodeId ++ ":" ++ env.nonce

/-- The keyword arguments of the inbound verifiers; `cache` says whether one is given. -/
structure Inbound where
  selfNodeId : String
  method : String
  path : String
  body : Bytes := []
  maxBodyBytes : Option Int := none
  maxSkewSeconds : Int := 300
  cache : Bool := false

/-- What `verify_signed_request` checks before it looks at the signature. -/
def envelopeReason (P : Platform) (env : SignedRequest) (req : Inbound) (now : DateTime) :
    Option String :=
  if env.signature.isNone then some "unsigned"
  else if env.targetNodeId ≠ req.selfNodeId then some "wrong_target"
  else if env.method ≠ P.upper req.method then some "method_mismatch"
  else if env.path ≠ req.path then some "path_mismatch"
  else if !checkBodySize req.body req.maxBodyBytes then some "body_too_large"
  else if env.bodySha256 ≠ sha256Hex P req.body then some "body_mismatch"
  else if (req.maxSkewSeconds : ℚ) < |now.totalSeconds env.timestamp| then some "stale_timestamp"
  else none

/-- `verify_signed_request` up to the nonce claim. -/
def checkSignedRequestAt (P : Platform) (env : SignedRequest) (jwk : JWK) (req : Inbound)
    (now : DateTime) : Except Exc (Bool × String) :=
  match envelopeReason P env req now with
  | some reason => .ok (false, reason)
  | none => do
    if !(← verifyModel P env jwk) then return (false, "bad_signature")
    return (true, "ok")

def verifySignedRequest (P : Platform) (env : SignedRequest) (jwk : JWK) (req : Inbound) :
    Py (Bool × String) := do
  let now ← utcNow .inbound
  let (ok, reason) ← raising (checkSignedRequestAt P env jwk req now)
  if !ok then return (false, reason)
  if req.cache then
    let claimed ← nonceSet .inbound (nonceCacheKey env) req.maxSkewSeconds
    if !claimed then return (false, "replay")
  return (true, "ok")

structure VerifiedPeer where
  sourceNodeId : String
  keyId : String
  sourceManifestRevision : Int
  requestId : String
  deriving DecidableEq

/-- The part of `verify_peer_request` before the verification: the envelope, its
signature and the key the peer advertises for it. -/
def selectSigner (P : Platform) (signatureHeader : Option String) (peerManifest : Manifest) :
    Except Exc (SignedRequest × Signature × JWK) := do
  let some header := signatureHeader | throw (.unauthorizedPeerRequest "missing_signature")
  if header = "" then throw (.unauthorizedPeerRequest "missing_signature")
  let some env := P.parseSignedRequest header
    | throw (.unauthorizedPeerRequest "malformed_envelope")
  let some signature := env.signature | throw (.unauthorizedPeerRequest "unsigned")
  if env.sourceNodeId ≠ peerManifest.nodeId then throw (.unauthorizedPeerRequest "source_mismatch")
  let some jwk := findJwk peerManifest.publicKeys signature.keyId
    | throw (.unauthorizedPeerRequest "unknown_key")
  return (env, signature, jwk)

def verifyPeerRequest (P : Platform) (signatureHeader : Option String) (peerManifest : Manifest)
    (req : Inbound) : Py VerifiedPeer := do
  let (env, signature, jwk) ← raising (selectSigner P signatureHeader peerManifest)
  let (ok, reason) ← verifySignedRequest P env jwk req
  if !ok then throw (.unauthorizedPeerRequest reason)
  return ⟨env.sourceNodeId, signature.keyId, env.sourceManifestRevision, env.requestId⟩

theorem lookup_append_of_ne {fields rest : List (String × Json)} {k : String}
    (h : ∀ kv ∈ fields, kv.1 ≠ k) : (fields ++ rest).lookup k = rest.lookup k := by
  induction fields with
  | nil => rfl
  | cons kv fields ih =>
    obtain ⟨hk, hrest⟩ := List.forall_mem_cons.mp h
    have hne : (k == kv.1) = false := by simpa using fun he => hk he.symm
    rw [List.cons_append, List.lookup_cons, hne]
    exact ih hrest

theorem verifyDict_signed {P : Platform} {fields : List (String × Json)}
    {signature : Signature} {jwk : JWK} (h : ∀ kv ∈ fields, kv.1 ≠ "signature") :
    verifyDict P (fields ++ optional "signature" Signature.toJson (some signature)) jwk =
      (canonicalBytes P (.obj fields) >>= fun data => verifyBytes P jwk signature.sig data) := by
  have hlookup : (fields ++ optional "signature" Signature.toJson (some signature)).lookup
      "signature" = some signature.toJson := by
    rw [lookup_append_of_ne h]
    rfl
  have hfilter : (fields ++ optional "signature" Signature.toJson (some signature)).filter
      (fun kv => kv.1 ≠ "signature") = fields := by
    rw [List.filter_append, List.filter_eq_self.mpr (by simpa using h)]
    simp [optional]
  rw [verifyDict, hlookup, hfilter]
  rfl

theorem verifyModel_signedRequest {P : Platform} {env : SignedRequest}
    {signature : Signature} {jwk : JWK} (hs : env.signature = some signature) :
    verifyModel P env jwk = (serTs env.timestamp >>= fun timestamp =>
      canonicalBytes P (.obj (env.fields timestamp)) >>= fun data =>
        verifyBytes P jwk signature.sig data) := by
  have hfields : ∀ timestamp, ∀ kv ∈ env.fields timestamp, kv.1 ≠ "signature" := by
    simp [SignedRequest.fields]
  cases hts : serTs env.timestamp with
  | error e => simp [verifyModel, Model.dump, hts, bind, Except.bind]
  | ok timestamp =>
    simp only [verifyModel, Model.dump, hts, hs, bind, Except.bind, pure, Except.pure]
    exact verifyDict_signed (hfields timestamp)

/-- What `verify_signed_request` does once its checks are made. -/
def claimNonce (env : SignedRequest) (req : Inbound) :
    Except Exc (Bool × String) → Task Call Resp (Except Exc (Bool × String))
  | .ok (true, _) =>
    if req.cache then
      .call ⟨.inbound, .nonceSet (nonceCacheKey env) req.maxSkewSeconds⟩ fun r =>
        .done (r.map fun claimed => if claimed then (true, "ok") else (false, "replay"))
    else .done (.ok (true, "ok"))
  | r => .done r

theorem verifySignedRequest_run (P : Platform) (env : SignedRequest) (jwk : JWK) (req : Inbound) :
    (verifySignedRequest P env jwk req).run =
      .call ⟨.inbound, .utcNow⟩ fun now =>
        claimNonce env req (checkSignedRequestAt P env jwk req now) := by
  rw [verifySignedRequest, Task.run_bind]
  refine congrArg (Task.call _) (funext fun now => ?_)
  rw [Task.done_bind, Task.andThen_ok, Task.run_bind]
  cases hc : checkSignedRequestAt P env jwk req now with
  | error e => rfl
  | ok result =>
    obtain ⟨ok, reason⟩ := result
    cases ok with
    | false => rfl
    | true =>
      cases hcache : req.cache with
      | false => simp [raising, Task.run_lift, claimNonce, hcache]
      | true =>
        simp only [raising, Task.run_lift, Bool.not_true, Bool.false_eq_true, ↓reduceIte, nonceSet,
          Task.done_bind, Task.andThen_ok, Task.run_bind, ExceptT.run_mk, Task.call_bind,
            claimNonce, hcache]
        refine congrArg (Task.call _) (funext fun r => ?_)
        cases r with
        | error e => rfl
        | ok claimed => cases claimed <;> rfl

theorem checkSignedRequestAt_true_iff {P : Platform} {env : SignedRequest} {jwk : JWK}
    {req : Inbound} {now : DateTime} {reason : String} :
    checkSignedRequestAt P env jwk req now = .ok (true, reason) ↔
      reason = "ok" ∧ envelopeReason P env req now = none ∧ verifyModel P env jwk = .ok true := by
  rw [checkSignedRequestAt]
  cases envelopeReason P env req now with
  | some r => simp
  | none =>
    cases hv : verifyModel P env jwk with
    | error e => simp [bind, Except.bind]
    | ok b => cases b <;> simp [bind, Except.bind, pure, Except.pure, eq_comm]

theorem checkSignedRequestAt_error_iff {P : Platform} {env : SignedRequest} {jwk : JWK}
    {req : Inbound} {now : DateTime} {e : Exc} :
    checkSignedRequestAt P env jwk req now = .error e ↔
      envelopeReason P env req now = none ∧ verifyModel P env jwk = .error e := by
  rw [checkSignedRequestAt]
  cases envelopeReason P env req now with
  | some r => simp
  | none =>
    cases hv : verifyModel P env jwk with
    | error e => simp [bind, Except.bind]
    | ok b => cases b <;> simp [bind, Except.bind, pure, Except.pure]

/-- What an envelope with nothing wrong satisfies. -/
structure EnvelopeFits (P : Platform) (env : SignedRequest) (req : Inbound) (now : DateTime) :
    Prop where
  signed : env.signature ≠ none
  target : env.targetNodeId = req.selfNodeId
  method : env.method = P.upper req.method
  path : env.path = req.path
  size : checkBodySize req.body req.maxBodyBytes = true
  body : env.bodySha256 = sha256Hex P req.body
  fresh : |now.totalSeconds env.timestamp| ≤ req.maxSkewSeconds

theorem envelopeReason_none_iff {P : Platform} {env : SignedRequest} {req : Inbound}
    {now : DateTime} :
    envelopeReason P env req now = none ↔ EnvelopeFits P env req now := by
  constructor
  · intro h
    simp only [envelopeReason] at h
    split_ifs at h with h1 h2 h3 h4 h5 h6 h7
    refine ⟨?_, not_not.mp h2, not_not.mp h3, not_not.mp h4, ?_, not_not.mp h6, not_lt.mp h7⟩
    · simpa using h1
    · simpa using h5
  · intro h
    have hsize : ¬ (!checkBodySize req.body req.maxBodyBytes) = true := by simp [h.size]
    rw [envelopeReason, if_neg (by simpa using h.signed), if_neg (not_not.mpr h.target),
      if_neg (not_not.mpr h.method), if_neg (not_not.mpr h.path), if_neg hsize,
      if_neg (not_not.mpr h.body), if_neg (not_lt.mpr h.fresh)]

theorem throw_eq {α : Type} (e : Exc) : (throw e : Except Exc α) = .error e := rfl

theorem selectSigner_ok_iff {P : Platform} {signatureHeader : Option String} {manifest : Manifest}
    {env : SignedRequest} {signature : Signature} {jwk : JWK} :
    selectSigner P signatureHeader manifest = .ok (env, signature, jwk) ↔
      ∃ header, signatureHeader = some header ∧ header ≠ "" ∧
        P.parseSignedRequest header = some env ∧
        env.signature = some signature ∧ env.sourceNodeId = manifest.nodeId ∧
        findJwk manifest.publicKeys signature.keyId = some jwk := by
  constructor
  · intro h
    simp only [selectSigner, throw_eq, bind, Except.bind] at h
    split at h
    · split_ifs at h with hh
      split at h
      · split at h
        · split_ifs at h with hsrc
          split at h
          · cases h
            rename_i hp hs hk
            exact ⟨_, rfl, hh, hp, hs, not_not.mp hsrc, hk⟩
          · cases h
        · cases h
      · cases h
    · cases h
  · rintro ⟨header, rfl, hne, hp, hs, hsrc, hk⟩
    simp only [selectSigner, hne, hp, hs, hsrc, hk, ↓reduceIte, ne_eq, not_true]
    rfl

theorem selectSigner_error {P : Platform} {signatureHeader : Option String}
    {manifest : Manifest} {e : Exc} (h : selectSigner P signatureHeader manifest = .error e) :
    ∃ reason, e = .unauthorizedPeerRequest reason := by
  simp only [selectSigner, throw_eq, bind, Except.bind] at h
  repeat' split at h
  all_goals first | exact ⟨_, (Except.error.inj h).symm⟩ | cases h

def peerOf (env : SignedRequest) (signature : Signature) :
    Except Exc (Bool × String) → Except Exc VerifiedPeer
  | .ok (true, _) =>
    .ok ⟨env.sourceNodeId, signature.keyId, env.sourceManifestRevision, env.requestId⟩
  | .ok (false, reason) => .error (.unauthorizedPeerRequest reason)
  | .error e => .error e

theorem verifyPeerRequest_run_of_signer {P : Platform} {signatureHeader : Option String}
    {manifest : Manifest} {req : Inbound} {env : SignedRequest} {signature : Signature} {jwk : JWK}
    (h : selectSigner P signatureHeader manifest = .ok (env, signature, jwk)) :
    (verifyPeerRequest P signatureHeader manifest req).run =
      (verifySignedRequest P env jwk req).run.bind fun r => .done (peerOf env signature r) := by
  rw [verifyPeerRequest, Task.run_bind, raising, Task.run_lift, h, Task.done_bind, Task.andThen_ok,
    Task.run_bind]
  refine congrArg _ (funext fun r => ?_)
  rcases r with e | ⟨ok, reason⟩
  · rfl
  · cases ok <;> rfl

theorem verifyPeerRequest_run_of_error {P : Platform} {signatureHeader : Option String}
    {manifest : Manifest} {req : Inbound} {e : Exc}
    (h : selectSigner P signatureHeader manifest = .error e) :
    (verifyPeerRequest P signatureHeader manifest req).run = .done (.error e) := by
  rw [verifyPeerRequest, Task.run_bind, raising, Task.run_lift, h]
  rfl

end Federlet
