import Federlet.Items

/-! A client's request at the peer it is for. What the client signed arrives with every
field it had, the time cut to whole seconds, and the peer accepts it exactly if the
request around it is the one that was signed, in time and for the first time. -/

namespace Federlet

open Coop

theorem DateTime.toSecond_toSecond (d : DateTime) : d.toSecond.toSecond = d.toSecond := by
  by_cases h : d.utcRepresentable = true
  · obtain ⟨h', hsecond⟩ := DateTime.toSecond_wholeSecond h
    have houter : d.toSecond.toSecond = .ofSecond d.toSecond.wholeSecond.toNat
        (wholeSecond_lt h').2 := dif_pos h'
    have hinner : d.toSecond = .ofSecond d.wholeSecond.toNat (wholeSecond_lt h).2 := dif_pos h
    rw [houter]
    conv_rhs => rw [hinner]
    congr
  · have hkeep : d.toSecond = d := dif_neg h
    rw [hkeep, hkeep]

section Envelope

variable {P : Platform} {V : Scalars} {r env : SignedRequest}

theorem SignedRequest.read_all (hV : V.Faithful) (hr : r.timestamp.utcRepresentable = true)
    {signature : Option Signature} (h : Validated.read V (.obj (r.fields (stampJson r.timestamp) ++
      optional "signature" Signature.toJson signature)) = some env) :
    env = { r with timestamp := r.timestamp.toSecond, signature } := by
  simp [Validated.read, readObject, required, defaulting_eq, SignedRequest.fields, lookup_field,
    lookup_optional, readStr, hV.int, hV.stampJson hr] at h
  exact h.symm

theorem SignedRequest.dumpsAs_stamped {kvs : List (String × Json)} (h : Model.dump r = .ok kvs) :
    r.timestamp.utcRepresentable = true ∧ DumpsAs r (r.fields (stampJson r.timestamp))
      r.signature := by
  cases hts : serTs r.timestamp with
  | error e => simp [Model.dump, hts, bind, Except.bind] at h
  | ok timestamp =>
    obtain ⟨hr, rfl⟩ := serTs_ok hts
    refine ⟨hr, ?_, by simp [SignedRequest.fields]⟩
    simp [Model.dump, hts, bind, Except.bind, pure, Except.pure]

theorem SignedRequest.overWire_eq (hV : V.Faithful) (h : overWire V r = .ok env) :
    env = { r with timestamp := r.timestamp.toSecond } := by
  cases hdump : Model.dump r with
  | error e => simp [overWire, hdump, bind, Except.bind] at h
  | ok kvs =>
    obtain ⟨hr, hm⟩ := SignedRequest.dumpsAs_stamped hdump
    exact SignedRequest.read_all hV hr (hm.overWire_iff.mp h)

theorem SignedRequest.signModel_eq (hV : V.Faithful) {key : Ed25519PrivateKey} {keyId : String}
    (h : signModel P V r key keyId = .ok env) :
    ∃ data, env = { r with timestamp := r.timestamp.toSecond,
                           signature := some { keyId, sig := signBytes key data } } := by
  cases hdump : Model.dump r with
  | error e => simp [signModel, hdump, bind, Except.bind] at h
  | ok kvs =>
    obtain ⟨hr, hm⟩ := SignedRequest.dumpsAs_stamped hdump
    obtain ⟨data, _, hread⟩ := hm.signModel_iff.mp h
    exact ⟨data, SignedRequest.read_all hV hr hread⟩

end Envelope

/-- The envelope a client makes of a call before it signs it. -/
def SigningClient.unsigned (P : Platform) (client : SigningClient)
    (targetNodeId method path : String) (body : Bytes) (draw : Draw) : SignedRequest :=
  { federationId := client.federationId, requestId := draw.requestId,
    sourceNodeId := client.nodeId, targetNodeId
    method := P.upper method, path, timestamp := draw.now, nonce := b64uEncode draw.nonce
    bodySha256 := sha256Hex P body, sourceManifestRevision := client.manifestRevision }

section Arrival

variable {P : Platform} {V : Scalars} {client : SigningClient} {targetNodeId method url : String}
  {body : Bytes} {params : List (String × String)} {draw : Draw} {out : OutgoingRequest}
  {received : SignedRequest}

theorem prepareRequest_arrives (hV : V.Faithful)
    (hsend : prepareRequest P V client targetNodeId method url body params draw = .ok out)
    (hwire : overWire V out.envelope = .ok received) :
    ∃ parsed data, urlparse P url = .ok parsed ∧ received =
      { client.unsigned P targetNodeId method (String.ofList parsed.path) body draw with
        timestamp := draw.now.toSecond
        signature := some { keyId := client.keyId, sig := signBytes client.key data } } := by
  cases hp : urlparse P url with
  | error e => simp [prepareRequest, hp, bind, Except.bind] at hsend
  | ok parsed =>
    cases hs : signedHeaders P V client targetNodeId method (String.ofList parsed.path)
      body draw with
    | error e => simp [prepareRequest, hp, hs, bind, Except.bind] at hsend
    | ok envelope =>
      simp only [prepareRequest, hp, hs, bind, Except.bind, pure, Except.pure, Except.ok.injEq]
        at hsend
      subst hsend
      obtain ⟨data, henvelope⟩ := SignedRequest.signModel_eq hV
        (r := client.unsigned P targetNodeId method (String.ofList parsed.path) body draw) hs
      have hreceived := SignedRequest.overWire_eq hV hwire
      subst henvelope
      refine ⟨parsed, data, rfl, hreceived.trans ?_⟩
      simp [SigningClient.unsigned, DateTime.toSecond_toSecond]

theorem prepareRequest_verifies (hV : V.Faithful)
    (hcanon : ∀ a b, a.Same b → P.rfc8785Dumps a = P.rfc8785Dumps b) (hkey : client.key.Ideal P)
    (hsend : prepareRequest P V client targetNodeId method url body params draw = .ok out)
    (hwire : overWire V out.envelope = .ok received) :
    verifyModel P received (publicJwk client.key) = .ok true := by
  cases hp : urlparse P url with
  | error e => simp [prepareRequest, hp, bind, Except.bind] at hsend
  | ok parsed =>
    cases hs : signedHeaders P V client targetNodeId method (String.ofList parsed.path)
      body draw with
    | error e => simp [prepareRequest, hp, hs, bind, Except.bind] at hsend
    | ok envelope =>
      simp only [prepareRequest, hp, hs, bind, Except.bind, pure, Except.pure, Except.ok.injEq]
        at hsend
      subst hsend
      exact (settles_signedRequest hV).signed hcanon hkey
        (m := client.unsigned P targetNodeId method (String.ofList parsed.path) body draw) hs
        (.single hwire)

/-- The request around an envelope is the one the client signed, and in time. -/
structure AsSigned (P : Platform) (targetNodeId method path : String) (body : Bytes)
    (sentAt : DateTime) (req : Inbound) (now : DateTime) : Prop where
  target : req.selfNodeId = targetNodeId
  method : P.upper req.method = P.upper method
  path : req.path = path
  body : req.body = body
  size : checkBodySize req.body req.maxBodyBytes = true
  fresh : |now.totalSeconds sentAt.toSecond| ≤ req.maxSkewSeconds

theorem envelopeFits_iff (hsha : Function.Injective P.sha256Hexdigest) {path : String}
    {signature : Signature} {req : Inbound} {now : DateTime} :
    EnvelopeFits P { client.unsigned P targetNodeId method path body draw with
        timestamp := draw.now.toSecond, signature := some signature } req now ↔
      AsSigned P targetNodeId method path body draw.now req now := by
  have hbody : sha256Hex P body = sha256Hex P req.body ↔ req.body = body := by
    rw [sha256Hex, sha256Hex, String.append_right_inj]
    exact ⟨fun h => (hsha h).symm, fun h => by rw [h]⟩
  constructor
  · rintro ⟨_, htarget, hmethod, hpath, hsize, hdigest, hfresh⟩
    exact ⟨htarget.symm, hmethod.symm, hpath.symm, hbody.mp hdigest, hsize, hfresh⟩
  · rintro ⟨htarget, hmethod, hpath, hsame, hsize, hfresh⟩
    exact ⟨by simp, htarget.symm, hmethod.symm, hpath.symm, hsize, hbody.mpr hsame, hfresh⟩

theorem checkSignedRequestAt_honest (hV : V.Faithful)
    (hcanon : ∀ a b, a.Same b → P.rfc8785Dumps a = P.rfc8785Dumps b) (hkey : client.key.Ideal P)
    (hsend : prepareRequest P V client targetNodeId method url body params draw = .ok out)
    (hwire : overWire V out.envelope = .ok received) (req : Inbound) (now : DateTime) :
    (EnvelopeFits P received req now →
      checkSignedRequestAt P received (publicJwk client.key) req now = .ok (true, "ok")) ∧
    (¬ EnvelopeFits P received req now →
      ∃ reason, checkSignedRequestAt P received (publicJwk client.key) req now =
        .ok (false, reason)) := by
  have hverified := prepareRequest_verifies hV hcanon hkey hsend hwire
  rw [← envelopeReason_none_iff, checkSignedRequestAt]
  cases henvelope : envelopeReason P received req now with
  | none => simp [hverified, bind, Except.bind, pure, Except.pure]
  | some reason => simp

theorem verifyPeerRequest_honest (hV : V.Faithful)
    (hcanon : ∀ a b, a.Same b → P.rfc8785Dumps a = P.rfc8785Dumps b)
    (hsha : Function.Injective P.sha256Hexdigest) (hkey : client.key.Ideal P)
    (hsend : prepareRequest P V client targetNodeId method url body params draw = .ok out)
    (hwire : overWire V out.envelope = .ok received) {header : String} (hheader : header ≠ "")
    (hparse : P.parseSignedRequest header = some received) {manifest : Manifest}
    (hsource : manifest.nodeId = client.nodeId)
    (hlisted : findJwk manifest.publicKeys client.keyId = some (publicJwk client.key))
    {parsed : ParseResult} {data : Bytes}
    (hreceived : received = { client.unsigned P targetNodeId method (String.ofList parsed.path)
      body draw with
      timestamp := draw.now.toSecond
      signature := some { keyId := client.keyId, sig := signBytes client.key data } })
    (req : Inbound) (world : Env) (s : NodeState) :
    let accepts := AsSigned P targetNodeId method (String.ofList parsed.path) body draw.now req
        (world.now .inbound s.clock) ∧
      (req.cache = true → (s.nonceSet (nonceCacheKey received) req.maxSkewSeconds).1 = true)
    let r := ((verifyPeerRequest P (some header) manifest req).run.eval world.handle s).1
    (accepts → r = .ok ⟨client.nodeId, client.keyId, client.manifestRevision, draw.requestId⟩) ∧
      (¬ accepts → ∃ reason, r = .error (.unauthorizedPeerRequest reason)) := by
  have hsignature : received.signature =
      some { keyId := client.keyId, sig := signBytes client.key data } := by
    rw [hreceived]
  have hsel : selectSigner P (some header) manifest = .ok (received, _, publicJwk client.key) :=
    selectSigner_ok_iff.mpr ⟨header, rfl, hheader, hparse, hsignature,
      by rw [hreceived, hsource]; rfl, hlisted⟩
  have hfits : EnvelopeFits P received req (world.now .inbound s.clock) ↔
      AsSigned P targetNodeId method (String.ofList parsed.path) body draw.now req
        (world.now .inbound s.clock) := by
    rw [hreceived]
    exact envelopeFits_iff hsha
  obtain ⟨hpass, hfail⟩ := checkSignedRequestAt_honest hV hcanon hkey hsend hwire req
    (world.now .inbound s.clock)
  have hpeer : peerOf received { keyId := client.keyId, sig := signBytes client.key data }
      (.ok (true, "ok")) = .ok ⟨client.nodeId, client.keyId, client.manifestRevision,
        draw.requestId⟩ := by
    rw [hreceived]
    rfl
  rw [verifyPeerRequest_run_of_signer hsel, Task.eval_bind, verifySignedRequest_run, Task.eval_call]
  by_cases h : EnvelopeFits P received req (world.now .inbound s.clock)
  · simp only [Env.handle, hpass h, Task.eval_done, claimNonce]
    cases hcache : req.cache with
    | false =>
      have haccepts := hfits.mp h
      simp [haccepts, hpeer]
    | true =>
      cases hclaimed : (s.nonceSet (nonceCacheKey received) req.maxSkewSeconds).1 with
      | true =>
        have haccepts := hfits.mp h
        simp [Env.handle, Except.map, hclaimed, haccepts, hpeer]
      | false => simp [Env.handle, Except.map, hclaimed, peerOf]
  · obtain ⟨reason, hreason⟩ := hfail h
    have hno := mt hfits.mpr h
    simp [Env.handle, hreason, claimNonce, peerOf, hno]

end Arrival

/-- A peer that lists the client's key accepts what the client sent exactly if the
request around it is the one that was signed, in time, and its nonce is still free; it
refuses everything else in the documented way. -/
theorem honest_request_judged (P : Platform) (V : Scalars) (hV : V.Faithful)
    (hcanon : ∀ a b, a.Same b → P.rfc8785Dumps a = P.rfc8785Dumps b)
    (hsha : Function.Injective P.sha256Hexdigest) (client : SigningClient)
    (hkey : client.key.Ideal P) (targetNodeId method url : String) (body : Bytes)
    (params : List (String × String)) (draw : Draw) (out : OutgoingRequest)
    (received : SignedRequest)
    (hsend : prepareRequest P V client targetNodeId method url body params draw = .ok out)
    (hwire : overWire V out.envelope = .ok received) (header : String) (hheader : header ≠ "")
    (hparse : P.parseSignedRequest header = some received) (manifest : Manifest)
    (hsource : manifest.nodeId = client.nodeId)
    (hlisted : findJwk manifest.publicKeys client.keyId = some (publicJwk client.key)) :
    ∃ parsed, urlparse P url = .ok parsed ∧ ∀ (req : Inbound) (world : Env) (s : NodeState),
      let accepts := AsSigned P targetNodeId method (String.ofList parsed.path) body draw.now req
          (world.now .inbound s.clock) ∧
        (req.cache = true → (s.nonceSet (nonceCacheKey received) req.maxSkewSeconds).1 = true)
      let r := ((verifyPeerRequest P (some header) manifest req).run.eval world.handle s).1
      (accepts → r = .ok ⟨client.nodeId, client.keyId, client.manifestRevision, draw.requestId⟩) ∧
        (¬ accepts → ∃ reason, r = .error (.unauthorizedPeerRequest reason)) := by
  obtain ⟨parsed, data, hparsed, hreceived⟩ := prepareRequest_arrives hV hsend hwire
  exact ⟨parsed, hparsed,
    verifyPeerRequest_honest hV hcanon hsha hkey hsend hwire hheader hparse hsource
      hlisted hreceived⟩

def hearingPlatform (received : SignedRequest) : Platform :=
  { signingPlatform with parseSignedRequest := fun _ => some received }

theorem prepareRequest_parse (P : Platform) (parse : String → Option SignedRequest) (V : Scalars)
    (client : SigningClient) (targetNodeId method url : String) (body : Bytes)
    (params : List (String × String)) (draw : Draw) :
    prepareRequest { P with parseSignedRequest := parse } V client targetNodeId method url
      body params draw = prepareRequest P V client targetNodeId method url body params draw := rfl

theorem alphaRequest_accepted :
    ∃ received world s, ((verifyPeerRequest (hearingPlatform received) (some "envelope")
    signerManifest { selfNodeId := "beta", method := "GET", path := "/members",
                     cache := true }).run.eval
      (Env.handle world) s).1 = .ok ⟨"alpha", "k1", 3, "r-1"⟩ := by
  obtain ⟨out, received, hsend, hwire⟩ :=
    alpha_sends "beta" "GET" [] (membersUrl.exists_urlparse (by simp [membersUrl])
    (by simp [membersUrl]) rfl)
  have hsent := (prepareRequest_parse signingPlatform (fun _ => some received) strictScalars
    alphaClient "beta" "GET" membersUrl.text [] [] alphaDraw).trans hsend
  have hkey : alphaSigner.Ideal (hearingPlatform received) :=
    fun data data' => alphaSigner_ideal data data'
  obtain ⟨parsed, hparsed, hjudged⟩ :=
    honest_request_judged (hearingPlatform received) strictScalars
    strictScalars_faithful (fun _ _ => dictDumps_congr)
    (exchange_sha256_injective getMembersRequest) alphaClient hkey "beta" "GET" membersUrl.text []
    [] alphaDraw out received hsent hwire "envelope" (by decide) rfl signerManifest rfl rfl
  have hpath : String.ofList parsed.path = "/members" := by
    have hbare : ';' ∉ membersUrl.path := by simp [membersUrl]
    rw [membersUrl.urlparse_path hparsed, if_neg hbare]
    exact String.ofList_toList
  refine ⟨received, silentWorld, emptyNode, (hjudged _ silentWorld emptyNode).1 ⟨?_, fun _ => rfl⟩⟩
  exact ⟨rfl, rfl, hpath.symm, rfl, rfl,
    (DateTime.abs_totalSeconds_le_iff (s := 300) (by decide)).mpr (by decide)⟩

end Federlet
