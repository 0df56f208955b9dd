import Federlet.Backoff
import Federlet.Canonical
import Federlet.Signing

/-! What an accepted inbound request proves about its sender, and when a refused
one is reported as `UnauthorizedPeerRequest`. -/

namespace Federlet

open Coop

/-- The bytes a signer of the request signs. -/
def IsSignedBody (P : Platform) (r : SignedRequest) (data : Bytes) : Prop :=
  ∃ timestamp, serTs r.timestamp = .ok timestamp ∧
    canonicalBytes P (.obj (r.fields timestamp)) = .ok data

/-- The request a verified peer is known by. -/
structure RequestMatches (P : Platform) (manifest : Manifest) (req : Inbound) (fresh : DateTime)
    (peer : VerifiedPeer) (r : SignedRequest) : Prop where
  source : r.sourceNodeId = manifest.nodeId
  target : r.targetNodeId = req.selfNodeId
  method : r.method = P.upper req.method
  path : r.path = req.path
  body : r.bodySha256 = sha256Hex P req.body
  body_only : ∀ body, sha256Hex P body = r.bodySha256 → body = req.body
  timestamp : r.timestamp.wholeSecond = fresh.wholeSecond
  requestId : r.requestId = peer.requestId
  revision : r.sourceManifestRevision = peer.sourceManifestRevision

/-- The holder of the selected key signed a request body, and every request with
that body is the one verified. -/
def Authenticated (P : Platform) (signed : JWK → Bytes → Prop) (manifest : Manifest) (req : Inbound)
    (now : DateTime) (peer : VerifiedPeer) : Prop :=
  ∃ jwk data fresh, findJwk manifest.publicKeys peer.keyId = some jwk ∧ signed jwk data ∧
    |now.totalSeconds fresh| ≤ req.maxSkewSeconds ∧
    peer.sourceNodeId = manifest.nodeId ∧ checkBodySize req.body req.maxBodyBytes = true ∧
    (∃ r, IsSignedBody P r data) ∧
    ∀ r, IsSignedBody P r data → RequestMatches P manifest req fresh peer r

theorem serTs_str {d : DateTime} {j : Json} (h : serTs d = .ok j) : ∃ s, j = .str s := by
  unfold serTs at h
  split at h
  · exact ⟨_, (Except.ok.inj h).symm⟩
  · cases h

theorem IsSignedBody.agree {P : Platform}
    (hcanon : ∀ a b x, canonicalBytes P a = .ok x → canonicalBytes P b = .ok x → a.Same b)
    {r r' : SignedRequest} {data : Bytes} (h : IsSignedBody P r data)
    (h' : IsSignedBody P r' data) :
    r.sourceNodeId = r'.sourceNodeId ∧ r.targetNodeId = r'.targetNodeId ∧ r.method = r'.method ∧
      r.path = r'.path ∧ r.bodySha256 = r'.bodySha256 ∧
      r.timestamp.wholeSecond = r'.timestamp.wholeSecond ∧ r.requestId = r'.requestId ∧
      r.sourceManifestRevision = r'.sourceManifestRevision := by
  obtain ⟨ts, hts, hdata⟩ := h
  obtain ⟨ts', hts', hdata'⟩ := h'
  have hsame := hcanon _ _ _ hdata hdata'
  obtain ⟨s, rfl⟩ := serTs_str hts
  obtain ⟨s', rfl⟩ := serTs_str hts'
  have hfield := fun k => hsame.field k
  have hstamp := hfield "timestamp"
  simp [SignedRequest.fields, List.lookup, Json.shape] at hstamp
  subst hstamp
  refine ⟨?_, ?_, ?_, ?_, ?_, serTs_inj hts hts', ?_, ?_⟩
  · simpa [SignedRequest.fields, List.lookup, Json.shape] using hfield "source_node_id"
  · simpa [SignedRequest.fields, List.lookup, Json.shape] using hfield "target_node_id"
  · simpa [SignedRequest.fields, List.lookup, Json.shape] using hfield "method"
  · simpa [SignedRequest.fields, List.lookup, Json.shape] using hfield "path"
  · simpa [SignedRequest.fields, List.lookup, Json.shape] using hfield "body_sha256"
  · simpa [SignedRequest.fields, List.lookup, Json.shape] using hfield "request_id"
  · simpa [SignedRequest.fields, List.lookup, Json.shape] using hfield "source_manifest_revision"

theorem isSignedBody_of_verified {P : Platform} {env : SignedRequest}
    {signature : Signature} {jwk : JWK} (hs : env.signature = some signature)
    (h : verifyModel P env jwk = .ok true) :
    ∃ data, IsSignedBody P env data ∧ verifyBytes P jwk signature.sig data = .ok true := by
  rw [verifyModel_signedRequest hs] at h
  cases hts : serTs env.timestamp with
  | error e => simp [hts, bind, Except.bind] at h
  | ok timestamp =>
    cases hd : canonicalBytes P (.obj (env.fields timestamp)) with
    | error e => simp [hts, hd, bind, Except.bind] at h
    | ok data =>
      simp only [hts, hd, bind, Except.bind] at h
      exact ⟨data, ⟨timestamp, hts, hd⟩, h⟩

theorem accepted_of_claimNonce {sem : Sem Call Resp NodeState}
    {background : NodeState → NodeState → Prop} {env : SignedRequest} {signature : Signature}
    {req : Inbound} {verdict : Except Exc (Bool × String)} {s s' : NodeState}
    {tr : List (Event Call Resp NodeState)} {peer : VerifiedPeer} (h : Task.Runs sem background
      ((claimNonce env req verdict).bind fun r => .done (peerOf env signature r)) s tr
      (.ok peer) s') :
    (∃ reason, verdict = .ok (true, reason)) ∧
      peer = ⟨env.sourceNodeId, signature.keyId, env.sourceManifestRevision, env.requestId⟩ := by
  rcases verdict with e | ⟨ok, reason⟩
  · cases h
  cases ok with
  | false => cases h
  | true =>
    refine ⟨⟨reason, rfl⟩, ?_⟩
    cases hcache : req.cache with
    | false =>
      simp only [claimNonce, hcache, Bool.false_eq_true, ↓reduceIte, Task.done_bind] at h
      cases h
      rfl
    | true =>
      simp only [claimNonce, hcache, ↓reduceIte, Task.call_bind] at h
      cases h with
      | @call _ _ _ _ _ _ r _ _ _ _ hk =>
        rcases r with e | claimed
        · cases hk
        · cases claimed <;> cases hk
          rfl

section Soundness

variable {P : Platform} {signed : JWK → Bytes → Prop}

theorem authenticated_of_checks
    (hideal : ∀ jwk sig data, verifyBytes P jwk sig data = .ok true → signed jwk data)
    (hcanon : ∀ a b x, canonicalBytes P a = .ok x → canonicalBytes P b = .ok x → a.Same b)
    (hsha : Function.Injective P.sha256Hexdigest) {signatureHeader : Option String}
    {manifest : Manifest} {req : Inbound} {now : DateTime} {env : SignedRequest}
    {signature : Signature} {jwk : JWK}
    (hsel : selectSigner P signatureHeader manifest = .ok (env, signature, jwk))
    (hfits : EnvelopeFits P env req now) (hv : verifyModel P env jwk = .ok true) :
    Authenticated P signed manifest req now
      ⟨env.sourceNodeId, signature.keyId, env.sourceManifestRevision, env.requestId⟩ := by
  obtain ⟨header, _, _, _, hs, hsource, hjwk⟩ := selectSigner_ok_iff.mp hsel
  obtain ⟨data, hbody, hverify⟩ := isSignedBody_of_verified hs hv
  refine ⟨jwk, data, env.timestamp, hjwk, hideal _ _ _ hverify, hfits.fresh, hsource, hfits.size,
    ⟨env, hbody⟩, ?_⟩
  intro r hr
  obtain ⟨hsrc, htarget, hmethod, hpath, hdigest, hstamp, hid, hrev⟩ := hr.agree hcanon hbody
  refine ⟨hsrc.trans hsource, htarget.trans hfits.target, hmethod.trans hfits.method,
    hpath.trans hfits.path, hdigest.trans hfits.body, ?_, hstamp, hid, hrev⟩
  intro body hb
  rw [hdigest, hfits.body, sha256Hex, sha256Hex, String.append_right_inj] at hb
  exact hsha hb

/-- Every run that returns a peer read the clock at a moment at which the
request was fresh, and the peer's key holder signed the request. -/
theorem verifyPeerRequest_sound
    (hideal : ∀ jwk sig data, verifyBytes P jwk sig data = .ok true → signed jwk data)
    (hcanon : ∀ a b x, canonicalBytes P a = .ok x → canonicalBytes P b = .ok x → a.Same b)
    (hsha : Function.Injective P.sha256Hexdigest) {signatureHeader : Option String}
    {manifest : Manifest} {req : Inbound} {s s' : NodeState} {tr : List (Event Call Resp NodeState)}
    {peer : VerifiedPeer}
    (hrun : Task.Runs Does Passes (verifyPeerRequest P signatureHeader manifest req).run s tr
      (.ok peer) s') :
    ∃ ev ∈ tr, ev.eff.op = .utcNow ∧ s.clock.instant ≤ ev.pre.clock.instant ∧
      Authenticated P signed manifest req ev.pre.clock peer := by
  cases hsel : selectSigner P signatureHeader manifest with
  | error e =>
    rw [verifyPeerRequest_run_of_error hsel] at hrun
    cases hrun
  | ok selected =>
    obtain ⟨env, signature, jwk⟩ := selected
    rw [verifyPeerRequest_run_of_signer hsel, verifySignedRequest_run] at hrun
    cases hrun with
    | @call _ _ _ s₁ s₂ _ now tr _ hb hs hk =>
      obtain ⟨rfl, rfl⟩ : now = s₁.clock ∧ s₂ = s₁ := hs
      refine ⟨_, List.mem_cons_self, rfl, ?_, ?_⟩
      · obtain ⟨t, ht, rfl⟩ := hb
        exact ht
      · obtain ⟨⟨reason, hok⟩, rfl⟩ := accepted_of_claimNonce hk
        obtain ⟨_, hreason, hv⟩ := checkSignedRequestAt_true_iff.mp hok
        exact authenticated_of_checks hideal hcanon hsha hsel
          (envelopeReason_none_iff.mp hreason) hv

end Soundness

/-- The two ways `verify_peer_request` is documented to end. -/
def Reported (r : Except Exc VerifiedPeer) : Prop :=
  (∃ peer, r = .ok peer) ∨ ∃ reason, r = .error (.unauthorizedPeerRequest reason)

/-- The envelope can be canonicalised and its key decoded or rejected. -/
def Verifiable (env : SignedRequest) (jwk : JWK) : Prop :=
  env.timestamp.utcRepresentable = true ∧ Json.safeInt env.sourceManifestRevision = true ∧
    lacksX jwk = false

instance (env : SignedRequest) (jwk : JWK) : Decidable (Verifiable env jwk) :=
  inferInstanceAs (Decidable (_ ∧ _ ∧ _))

theorem SignedRequest.fields_safe (r : SignedRequest) (s : String) :
    (Json.obj (r.fields (.str s))).safe = Json.safeInt r.sourceManifestRevision := by
  simp [SignedRequest.fields, Json.safe, Json.safeFields]

theorem verifyModel_ok_iff {P : Platform}
    (hsafe : ∀ j, j.safe = true → ∃ data, P.rfc8785Dumps j = .ok data)
    (hrange : ∀ j, j.safe = false → P.rfc8785Dumps j = .error .canonicalizationError)
    {env : SignedRequest} {signature : Signature} {jwk : JWK}
    (hs : env.signature = some signature) :
    (∃ b, verifyModel P env jwk = .ok b) ↔ Verifiable env jwk := by
  rw [verifyModel_signedRequest hs, Verifiable]
  cases hrep : env.timestamp.utcRepresentable with
  | false => simp [serTs_error hrep, bind, Except.bind]
  | true =>
    simp only [serTs_of_representable hrep, bind, Except.bind, canonicalBytes]
    generalize String.ofList (isoChars env.timestamp.wholeSecond.toNat) = stamp
    cases hrev : Json.safeInt env.sourceManifestRevision with
    | false => simp [hrange _ ((env.fields_safe stamp).trans hrev)]
    | true =>
      obtain ⟨data, hdata⟩ := hsafe _ ((env.fields_safe stamp).trans hrev)
      simp only [hdata, true_and]
      have herror := @verifyBytes_error_iff P jwk signature.sig data
      cases hv : verifyBytes P jwk signature.sig data with
      | ok b => simpa [hv] using herror
      | error e => simpa [hv] using herror

theorem verifyModel_error_not_unauthorized {P : Platform}
    (hsafe : ∀ j, j.safe = true → ∃ data, P.rfc8785Dumps j = .ok data)
    (hrange : ∀ j, j.safe = false → P.rfc8785Dumps j = .error .canonicalizationError)
    {env : SignedRequest} {signature : Signature} {jwk : JWK} (hs : env.signature = some signature)
    (reason : String) : verifyModel P env jwk ≠ .error (.unauthorizedPeerRequest reason) := by
  rw [verifyModel_signedRequest hs]
  cases hrep : env.timestamp.utcRepresentable with
  | false => simp [serTs_error hrep, bind, Except.bind]
  | true =>
    simp only [serTs_of_representable hrep, bind, Except.bind, canonicalBytes]
    generalize Json.obj (env.fields _) = body
    cases hb : body.safe with
    | false => simp [hrange body hb]
    | true =>
      obtain ⟨data, hdata⟩ := hsafe body hb
      rw [hdata]
      intro hv
      exact absurd (verifyBytes_error hv) (by simp [Exc.isValueError])

theorem reported_claimNonce_iff {world : Env} {s : NodeState} {env : SignedRequest}
    {signature : Signature} {req : Inbound} {verdict : Except Exc (Bool × String)} :
    Reported (peerOf env signature ((claimNonce env req verdict).eval world.handle s).1) ↔
      ∀ e, verdict = .error e → ∃ reason, e = .unauthorizedPeerRequest reason := by
  rcases verdict with e | ⟨ok, reason⟩
  · simp [claimNonce, peerOf, Reported]
  cases ok with
  | false => simp [claimNonce, peerOf, Reported]
  | true =>
    cases hcache : req.cache with
    | false => simp [claimNonce, hcache, peerOf, Reported]
    | true =>
      simp only [claimNonce, hcache, ↓reduceIte, Task.eval_call, Env.handle,
        Task.eval_done, Except.map]
      cases (s.nonceSet (nonceCacheKey env) req.maxSkewSeconds).1 <;> simp [peerOf, Reported]

/-- Every failure is reported as documented, except on an envelope that passes
every check before its signature and then cannot be canonicalised, or whose
advertised Ed25519 key lacks its `x` member. -/
theorem verifyPeerRequest_reported_iff (P : Platform)
    (hsafe : ∀ j, j.safe = true → ∃ data, P.rfc8785Dumps j = .ok data)
    (hrange : ∀ j, j.safe = false → P.rfc8785Dumps j = .error .canonicalizationError)
    (signatureHeader : Option String) (manifest : Manifest) (req : Inbound) (world : Env)
    (s : NodeState) :
    Reported ((verifyPeerRequest P signatureHeader manifest req).run.eval world.handle s).1 ↔
      ∀ header env signature jwk, signatureHeader = some header → header ≠ "" →
        P.parseSignedRequest header = some env → env.signature = some signature →
        env.sourceNodeId = manifest.nodeId →
        findJwk manifest.publicKeys signature.keyId = some jwk →
        EnvelopeFits P env req (world.now .inbound s.clock) → Verifiable env jwk := by
  cases hsel : selectSigner P signatureHeader manifest with
  | error e =>
    obtain ⟨reason, rfl⟩ := selectSigner_error hsel
    rw [verifyPeerRequest_run_of_error hsel, Task.eval_done, iff_true_left (.inr ⟨reason, rfl⟩)]
    intro header env signature jwk hh hne hp hs hsource hjwk _
    have hok := selectSigner_ok_iff.mpr ⟨header, hh, hne, hp, hs, hsource, hjwk⟩
    simp [hsel] at hok
  | ok selected =>
    obtain ⟨env, signature, jwk⟩ := selected
    obtain ⟨header, rfl, hne, hp, hs, hsource, hjwk⟩ := selectSigner_ok_iff.mp hsel
    have hverdict := @verifyModel_ok_iff P hsafe hrange env signature jwk hs
    rw [verifyPeerRequest_run_of_signer hsel, Task.eval_bind, Task.eval_done,
      verifySignedRequest_run, Task.eval_call, reported_claimNonce_iff]
    constructor
    · intro h header' env' signature' jwk' hh _ hp' hs' _ hjwk' hfits
      cases hh
      obtain rfl : env = env' := by simpa [hp] using hp'
      obtain rfl : signature = signature' := by simpa [hs] using hs'
      obtain rfl : jwk = jwk' := by simpa [hjwk] using hjwk'
      rw [← hverdict]
      cases hv : verifyModel P env jwk with
      | ok b => exact ⟨b, rfl⟩
      | error e =>
        obtain ⟨reason, rfl⟩ := h e
          (checkSignedRequestAt_error_iff.mpr ⟨envelopeReason_none_iff.mpr hfits, hv⟩)
        exact absurd hv (verifyModel_error_not_unauthorized hsafe hrange hs reason)
    · intro h e he
      obtain ⟨hreason, hv⟩ := checkSignedRequestAt_error_iff.mp he
      obtain ⟨b, hb⟩ := hverdict.mpr (h header env signature jwk rfl hne hp hs hsource hjwk
        (envelopeReason_none_iff.mp hreason))
      simp [hv] at hb

section Exchange

def alphaKey : JWK :=
  Keyed.ofList [("kty", "OKP"), ("crv", "Ed25519"), ("alg", "EdDSA"),
    ("x", "11qYAYKxCrfVS_7TyWQHOg7hcvPapiMlrwIaaPcHURo")]

def alphaManifest : Manifest :=
  { nodeId := "alpha", orgId := "acme", federations := ["fed"], endpoint := "https://alpha.example"
    protocolVersions := ["1"], revision := 3,
    publicKeys := [{ keyId := "k1", publicJwk := alphaKey }]
    membership := { introduceUrl := "https://alpha.example/introduce"
                    membersUrl := "https://alpha.example/members" }
    expiresAt := some (.utc 63905500800000000 (by decide))
    signature := some { keyId := "k1", sig :=
      "jInVC4h4-uf-v3Vf7g0-vlL8ku8dCA0SmWNDxrMKDOb3n5Jw6VliRO3UxpGcuy6CrzPenNiEyl2huGklt8X_CA" } }

def getMembersRequest : SignedRequest :=
  { federationId := "fed", requestId := "r-1", sourceNodeId := "alpha", targetNodeId := "beta"
    method := "GET", path := "/members", timestamp := newYear2026, nonce := "n1"
    bodySha256 := "sha256:e3b0c44298fc1c149afbf4c8996fb92427ae41e4649b934ca495991b7852b855"
    sourceManifestRevision := 3
    signature := some { keyId := "k1", sig :=
      "POkTN7dbcXrQqFtu-dtfErFddHdpEQyABvw6C_f9EafdXn9B51ivGyzlPI47xEGfzWXdK7JokhZL4tTQj3fpCw" } }

def unsafeRevisionRequest : SignedRequest :=
  { getMembersRequest with sourceManifestRevision := 9007199254740992,
                           signature := some { keyId := "k1", sig := "" } }

/-- What `alpha` signed: the signatures and the canonical bytes, in pieces. -/
def alphaSigned : List (String × List String) :=
  [("POkTN7dbcXrQqFtu-dtfErFddHdpEQyABvw6C_f9EafdXn9B51ivGyzlPI47xEGfzWXdK7JokhZL4tTQj3fpCw",
    ["\x7b\"body_sha256\":\"sha256:e3b0c44298fc1c149afbf4c8996fb92427ae41e4649b934ca495991b7852b855\",",
    "\"federation_id\":\"fed\",\"method\":\"GET\",\"nonce\":\"n1\",\"path\":\"/members\",",
    "\"request_id\":\"r-1\",\"source_manifest_revision\":3,\"source_node_id\":\"alpha\",",
    "\"target_node_id\":\"beta\",\"timestamp\":\"2026-01-01T00:00:00Z\"\x7d"]),
   ("jInVC4h4-uf-v3Vf7g0-vlL8ku8dCA0SmWNDxrMKDOb3n5Jw6VliRO3UxpGcuy6CrzPenNiEyl2huGklt8X_CA",
    ["\x7b\"auth_methods\":[\"signed_http\"],\"endpoint\":\"https://alpha.example\",",
    "\"expires_at\":\"2026-02-01T00:00:00Z\",\"extensions\":\x7b\x7d,\"federations\":[\"fed\"],",
    "\"membership\":\x7b\"introduce_url\":\"https://alpha.example/introduce\",",
    "\"members_url\":\"https://alpha.example/members\"\x7d,\"node_id\":\"alpha\",\"org_id\":\"acme\",",
    "\"protocol_versions\":[\"1\"],\"public_keys\":[\x7b\"alg\":\"EdDSA\",\"key_id\":\"k1\",",
    "\"public_jwk\":\x7b\"alg\":\"EdDSA\",\"crv\":\"Ed25519\",\"kty\":\"OKP\",",
    "\"x\":\"11qYAYKxCrfVS_7TyWQHOg7hcvPapiMlrwIaaPcHURo\"\x7d,\"use\":\"sig\"\x7d],\"revision\":3\x7d"])]

def decodes (r : Except Exc Bytes) (b : Bytes) : Bool :=
  match r with
  | .ok b' => b' == b
  | .error _ => false

def headerOf (env : SignedRequest) : String :=
  match Model.dump env with
  | .ok fields => String.ofList (Canonical.render (.obj fields))
  | .error _ => ""

/-- A platform that knows `alpha`'s signatures and no others, and one header. Its
digest is the genuine one of the empty body and injective throughout. -/
def exchange (env : SignedRequest) : Platform where
  upper s := String.ofList (s.toList.map Char.toUpper)
  lower s := String.ofList (s.toList.map Char.toLower)
  sha256Hexdigest b :=
    if b = [] then "e3b0c44298fc1c149afbf4c8996fb92427ae41e4649b934ca495991b7852b855"
    else String.ofList ('-' :: b.map Char.ofUInt8)
  ed25519Verify key sig data := alphaSigned.any fun s =>
    decodes (publicKeyFromJwk alphaKey) key && decodes (b64uDecode s.1) sig &&
      Canonical.utf8 (s.2.flatMap String.toList) == data
  rfc8785Dumps := Canonical.dumps
  ipAddress _ := none
  netlocAccepted _ := true
  parseSignedRequest header := if header = headerOf env then some env else none
  validateManifest _ := .error .validationError
  validateMembers _ := .error .validationError
  validateIntroduce _ := .error .validationError

def alphaInbound : Inbound := { selfNodeId := "beta", method := "get", path := "/members" }

def silentWorld : Env where
  getaddrinfo _ _ := .error (.other "gaierror")
  httpGet _ _ := .error .timeoutError
  httpRequest _ _ _ _ _ := .error .timeoutError
  hostCallback _ _ := .ok (false, "refused")

def emptyNode : NodeState :=
  { clock := newYear2026, membershipTable := .empty, peerManifests := .empty, cacheRef := 0
    manifestStore := .empty, nonces := [] }

theorem headerOf_ne {env : SignedRequest} {fields : List (String × Json)}
    (h : Model.dump env = .ok fields) :
    headerOf env ≠ "" := by
  intro he
  have hnil := congrArg String.toList he
  simp only [headerOf, h, String.toList_ofList, Canonical.render] at hnil
  cases hnil

theorem exchange_parse (env : SignedRequest) :
    (exchange env).parseSignedRequest (headerOf env) = some env := if_pos rfl

theorem exchange_selectSigner {env : SignedRequest} {signature : Signature}
    (hdump : ∃ fields, Model.dump env = .ok fields) (hs : env.signature = some signature)
    (hsource : env.sourceNodeId = "alpha") (hkey : signature.keyId = "k1") :
    selectSigner (exchange env) (some (headerOf env)) alphaManifest =
      .ok (env, signature, alphaKey) := by
  obtain ⟨fields, hfields⟩ := hdump
  refine selectSigner_ok_iff.mpr ⟨_, rfl, headerOf_ne hfields, exchange_parse env, hs, hsource, ?_⟩
  rw [hkey]
  rfl

theorem exchange_ideal (env : SignedRequest) (jwk : JWK) (sig : String) (data : Bytes)
    (h : verifyBytes (exchange env) jwk sig data = .ok true) :
    ∃ s ∈ alphaSigned, Canonical.utf8 (s.2.flatMap String.toList) = data := by
  obtain ⟨key, raw, _, _, hv⟩ := verifyBytes_true h
  obtain ⟨s, hs, hmatch⟩ := List.any_eq_true.mp hv
  exact ⟨s, hs, by simpa using (Bool.and_eq_true_iff.mp hmatch).2⟩

theorem exchange_sha256_injective (env : SignedRequest) :
    Function.Injective (exchange env).sha256Hexdigest := by
  intro a b h
  simp only [exchange] at h
  split_ifs at h with ha hb hb
  · rw [ha, hb]
  · exact absurd (congrArg (fun s => s.toList.head?) h) (by simp)
  · exact absurd (congrArg (fun s => s.toList.head?) h) (by simp)
  · have hinj : Function.Injective Char.ofUInt8 := by
      intro x y hxy
      exact UInt8.toUInt32_inj.mp (congrArg Char.val hxy)
    exact hinj.list_map (List.cons.inj (String.ofList_inj.mp h)).2

theorem membersRequest_verified :
    checkSignedRequestAt (exchange getMembersRequest) getMembersRequest alphaKey
      alphaInbound newYear2026 = .ok (true, "ok") := by
  decide +kernel

theorem alphaManifest_checks :
    checkManifestAt (exchange unsafeRevisionRequest) alphaManifest newYear2026 300 =
      .ok (true, "ok") := by
  decide +kernel

theorem exchange_accepts :
    ∃ tr s', Task.Runs Does Passes
      (verifyPeerRequest (exchange getMembersRequest)
        (some (headerOf getMembersRequest)) alphaManifest
        alphaInbound).run emptyNode tr (.ok ⟨"alpha", "k1", 3, "r-1"⟩) s' := by
  have hsel := @exchange_selectSigner getMembersRequest _ ⟨_, rfl⟩ rfl rfl rfl
  rw [verifyPeerRequest_run_of_signer hsel, verifySignedRequest_run]
  refine ⟨[⟨emptyNode, ⟨.inbound, .utcNow⟩, newYear2026, emptyNode⟩], emptyNode,
    .call (.refl emptyNode) ⟨rfl, rfl⟩ ?_⟩
  simp only [membersRequest_verified]
  exact .done _ _

theorem exchange_authenticated : ∃ now, Authenticated (exchange getMembersRequest)
    (fun _ data => ∃ s ∈ alphaSigned, Canonical.utf8 (s.2.flatMap String.toList) = data)
    alphaManifest alphaInbound now ⟨"alpha", "k1", 3, "r-1"⟩ := by
  obtain ⟨tr, s', hrun⟩ := exchange_accepts
  obtain ⟨ev, _, _, _, h⟩ := verifyPeerRequest_sound (exchange_ideal getMembersRequest)
    (fun _ _ _ => Canonical.dumps_inj) (exchange_sha256_injective getMembersRequest) hrun
  exact ⟨_, h⟩

theorem exchange_reported : Reported ((verifyPeerRequest (exchange getMembersRequest)
    (some (headerOf getMembersRequest)) alphaManifest alphaInbound).run.eval silentWorld.handle
  emptyNode).1 := by
  refine (verifyPeerRequest_reported_iff (exchange getMembersRequest)
    (fun _ h => ⟨_, Canonical.dumps_safe h⟩) (fun _ => Canonical.dumps_outside) _ alphaManifest
    alphaInbound silentWorld emptyNode).mpr ?_
  intro header env signature jwk hh _ hp hs _ hjwk _
  obtain rfl : headerOf getMembersRequest = header := Option.some.inj hh
  obtain rfl : getMembersRequest = env :=
    Option.some.inj ((exchange_parse getMembersRequest).symm.trans hp)
  cases hs
  obtain rfl : alphaKey = jwk := Option.some.inj hjwk
  decide +kernel

/-- A revision of 2^53 in the header escapes as a canonicalisation error. -/
theorem exchange_unsafe_revision :
    checkManifestAt (exchange unsafeRevisionRequest) alphaManifest newYear2026 300 =
      .ok (true, "ok") ∧
    ((verifyPeerRequest (exchange unsafeRevisionRequest) (some (headerOf unsafeRevisionRequest))
        alphaManifest alphaInbound).run.eval silentWorld.handle emptyNode).1 =
      .error .canonicalizationError ∧
    ¬ Reported
        ((verifyPeerRequest (exchange unsafeRevisionRequest) (some (headerOf unsafeRevisionRequest))
          alphaManifest alphaInbound).run.eval silentWorld.handle emptyNode).1 := by
  have hsel := @exchange_selectSigner unsafeRevisionRequest _ ⟨_, rfl⟩ rfl rfl rfl
  have hcheck : checkSignedRequestAt (exchange unsafeRevisionRequest) unsafeRevisionRequest alphaKey
      alphaInbound newYear2026 = .error .canonicalizationError := by decide +kernel
  have heval :
      ((verifyPeerRequest (exchange unsafeRevisionRequest) (some (headerOf unsafeRevisionRequest))
      alphaManifest alphaInbound).run.eval silentWorld.handle emptyNode).1 =
        .error .canonicalizationError := by
    rw [verifyPeerRequest_run_of_signer hsel, verifySignedRequest_run, Task.call_bind,
      Task.eval_call]
    rw [show (silentWorld.handle ⟨.inbound, .utcNow⟩ emptyNode).1 = newYear2026 from rfl, hcheck]
    rfl
  refine ⟨alphaManifest_checks, heval, ?_⟩
  rw [heval]
  rintro (⟨peer, h⟩ | ⟨reason, h⟩) <;> cases h

end Exchange

end Federlet
