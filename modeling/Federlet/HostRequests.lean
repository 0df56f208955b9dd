import Federlet.Host
import Federlet.Library.Gather

/-! The host's side of an exchange. A request that a client signed is answered by the host
that knows it, and a newcomer's introduction makes the host one that does. -/

namespace Federlet

open Coop

section Verifier

variable {P : Platform} {V : Scalars} {header : Option String} {manifest : Manifest} {req : Inbound}
  {env : SignedRequest} {signature : Signature} {jwk : JWK} {s : HostState}

def HostState.claim (s : HostState) (env : SignedRequest) (signature : Signature) :
    Except Exc (Bool × String) → Except Exc VerifiedPeer × HostState
  | .ok (true, reason) =>
    if nonceCacheKey env ∈ s.seen then (.error (.unauthorizedPeerRequest "replay"), s)
    else (peerOf env signature (.ok (true, reason)), { s with seen := nonceCacheKey env :: s.seen })
  | verdict => (peerOf env signature verdict, s)

theorem claimNonce_hosted (hcache : req.cache = true) (verdict : Except Exc (Bool × String)) :
    (((claimNonce env req verdict).bind fun r => .done (peerOf env signature r)).through
      hosted).eval HostState.handle s = s.claim env signature verdict := by
  rcases verdict with e | ⟨ok, reason⟩
  · rfl
  cases ok with
  | false => rfl
  | true =>
    simp only [claimNonce, hcache, ↓reduceIte, Task.call_bind, Task.through_call, hosted,
      memoryNonceSet, HostState.claim]
    by_cases hseen : nonceCacheKey env ∈ s.seen
    · simp [HostState.handle, hseen, Except.map, peerOf]
    · simp [HostState.handle, hseen, Except.map, peerOf]

theorem verifyPeerRequest_hosted (hcache : req.cache = true)
    (hsel : selectSigner P header manifest = .ok (env, signature, jwk)) :
    (inHost (verifyPeerRequest P header manifest req)).run.eval HostState.handle s =
      s.claim env signature (checkSignedRequestAt P env jwk req s.clock) := by
  show ((verifyPeerRequest P header manifest req).run.through hosted).eval HostState.handle s = _
  rw [verifyPeerRequest_run_of_signer hsel, verifySignedRequest_run]
  exact claimNonce_hosted hcache _

theorem checkManifest_hosted {o : Origin} {skew : Int} :
    (inHost (checkManifest P o manifest skew)).run.eval HostState.handle s =
      (checkManifestAt P manifest s.clock skew, s) := rfl

end Verifier

section Members

variable {P : Platform} {V : Scalars} {node : ExampleNode} {client : SigningClient} {s : HostState}

theorem authenticateKnownPeer_hosted {header : String} {method path : String} {body : Bytes}
    {env : SignedRequest} {signature : Signature} {jwk : JWK} {peer : Manifest}
    (hheader : header ≠ "") (hparse : P.parseSignedRequest header = some env)
    (hknown : s.trustedPeers.get env.sourceNodeId = some peer)
    (hsel : selectSigner P (some header) peer = .ok (env, signature, jwk))
    (hcheck : checkSignedRequestAt P env jwk (node.inbound method path body) s.clock =
      .ok (true, "ok")) (hunseen : nonceCacheKey env ∉ s.seen) :
    (node.authenticateKnownPeer P (some header) method path body).run.eval HostState.handle s =
      (.ok (true, "ok"), { s with seen := nonceCacheKey env :: s.seen }) := by
  have hget : (trustedGet env.sourceNodeId).run.eval HostState.handle s = (.ok (some peer), s) := by
    rw [← hknown]
    rfl
  have hverify := @verifyPeerRequest_hosted P (some header) peer (node.inbound method path body) env
    signature jwk s rfl hsel
  rw [hcheck, HostState.claim, if_neg hunseen] at hverify
  have hpresent : (some header).filter (· ≠ "") = some header := by simp [hheader]
  simp only [ExampleNode.authenticateKnownPeer, hpresent, hparse]
  rw [Task.eval_run_bind, hget, Task.andThen_ok]
  dsimp only
  rw [Task.eval_run_bind, Task.run_attempt, Task.eval_bind, hverify]
  rfl

theorem signedMembersResponse_hosted {manifest : Manifest}
    (hmanifest : node.manifest = some manifest) {response : MembersResponse}
    {payload : List (String × Json)}
    (hsigned : signMembersResponse P V
      { sourceNodeId := node.nodeId, members := s.trustedPeers.entries.map peerRef }
      node.key node.keyId = .ok response) (hdump : Model.dump response = .ok payload) :
    (node.signedMembersResponse P V).run.eval HostState.handle s = (.ok payload, s) := by
  have hvalues : trustedValues.run.eval HostState.handle s = (.ok s.trustedPeers.entries, s) := rfl
  simp only [ExampleNode.signedMembersResponse, hmanifest]
  rw [Task.eval_run_bind, hvalues, Task.andThen_ok, Task.eval_run_bind, Task.run_lift,
    Task.eval_done, hsigned, Task.andThen_ok, Task.run_lift, hdump]
  rfl

theorem MembersResponse.read_all (hV : V.Faithful) {r r' : MembersResponse} :
    ∃ fields, DumpsAs r fields r.signature ∧ ∀ signature',
      Validated.read V (.obj (fields ++ optional "signature" Signature.toJson signature')) =
        some r' →
        r' = { r with signature := signature' } := by
  have hmembers : (r.members.map MemberRef.toJson).mapM (MemberRef.read V) =
      some (r.members.map id) :=
    mapM_read fun x _ => MemberRef.read_toJson hV x
  have hunsigned : ∀ kv ∈ [("source_node_id", Json.str r.sourceNodeId)] ++
      optional "cursor" .str r.cursor ++
      [("members", .arr (r.members.map MemberRef.toJson))], kv.1 ≠ "signature" := by
    simp only [List.forall_mem_append, forall_mem_optional]
    simp
  refine ⟨_, ⟨rfl, hunsigned⟩, fun signature' h => ?_⟩
  simp [Validated.read, readObject, required, defaulting_eq, lookup_field, lookup_optional,
    List.lookup_append, readStr, readList, hmembers] at h
  exact h.symm

theorem MembersResponse.signModel_eq (hV : V.Faithful) {r signed : MembersResponse}
    {key : Ed25519PrivateKey} {keyId : String} (h : signModel P V r key keyId = .ok signed) :
    ∃ sig, signed = { r with signature := some { keyId, sig } } := by
  obtain ⟨fields, hm, hread⟩ := @MembersResponse.read_all V hV r signed
  obtain ⟨data, _, hsigned⟩ := hm.signModel_iff.mp h
  exact ⟨_, hread _ hsigned⟩

theorem MembersResponse.overWire_eq (hV : V.Faithful) {r r' : MembersResponse}
    (h : overWire V r = .ok r') : r' = r := by
  obtain ⟨fields, hm, hread⟩ := @MembersResponse.read_all V hV r r'
  exact hread _ (hm.overWire_iff.mp h)

theorem members_signed (hV : V.Faithful)
    (hcanon : ∀ a b, a.Same b → P.rfc8785Dumps a = P.rfc8785Dumps b)
    (hsafe : ∀ a, a.safe = true → ∃ data, P.rfc8785Dumps a = .ok data) (hnode : node.key.Ideal P)
    {peers : List Manifest} (hrevisions : ∀ peer ∈ peers, Json.safeInt peer.revision = true) :
    ∃ signed received payload, signMembersResponse P V
      { sourceNodeId := node.nodeId, members := peers.map peerRef } node.key node.keyId =
      .ok signed ∧ overWire V signed = .ok received ∧ Model.dump signed = .ok payload := by
  let response : MembersResponse := { sourceNodeId := node.nodeId, members := peers.map peerRef }
  have hrefs : ∀ j ∈ (peers.map peerRef).map MemberRef.toJson, j.safe = true := by
    simp only [List.map_map, List.mem_map, forall_exists_index, and_imp]
    rintro _ peer hpeer rfl
    have hrevision := hrevisions peer hpeer
    simp [peerRef, MemberRef.toJson, Json.safe, Json.safeFields, optional, hrevision]
  have hhints : ∀ kvs, Model.dump response = .ok kvs → Json.safeFields kvs = true := by
    intro kvs h
    obtain rfl := Except.ok.inj h
    have hlist := Json.safeList_iff.mpr hrefs
    simpa [response, optional, Json.safeFields, Json.safe] using hlist
  obtain ⟨signed, received, hsigned, hsent, _⟩ :=
    (settles_membersResponse hV).verifies hcanon hsafe hnode node.keyId
    (m := response) rfl (hhints _ rfl)
  exact ⟨signed, received, _, hsigned, hsent, rfl⟩

end Members

theorem ExampleNode.serve_members (P : Platform) (V : Scalars) (decode : Bytes → Option Json)
    {node : ExampleNode} {published : Manifest} (hpublished : node.manifest = some published)
    (header : Option String) :
    node.serve P V decode { method := .get, path := "/federation/v1/members",
                            signatureHeader := header } =
      node.handleMembers P V header := by
  have hne : "/federation/v1/members" ≠ manifestPath := by decide
  simp [ExampleNode.serve, hpublished, hne]

/-- A client's request to its peer, and the envelope the peer reads from its header. -/
structure Delivered (P : Platform) (V : Scalars) (client : SigningClient) (peer : Manifest)
    (method : String) (url : HttpUrl) (body : Bytes) (draw : Draw) (out : OutgoingRequest)
    (header : String) (received : SignedRequest) : Prop where
  sent : prepareRequest P V client peer.nodeId method url.text body [] draw = .ok out
  wire : overWire V out.envelope = .ok received
  present : header ≠ ""
  parse : P.parseSignedRequest header = some received

/-- The client holds the identity and the key of the host. -/
structure Describes (node : ExampleNode) (peer : Manifest) : Prop where
  nodeId : peer.nodeId = node.nodeId
  listed : findJwk peer.publicKeys node.keyId = some (publicJwk node.key)

/-- The manifest is the client's, and lists the key it signs with. -/
structure Identifies (client : SigningClient) (manifest : Manifest) : Prop where
  nodeId : manifest.nodeId = client.nodeId
  listed : findJwk manifest.publicKeys client.keyId = some (publicJwk client.key)

/-- A host is described by the manifest it published, wherever that has been relayed. -/
theorem publishAt_describes {P : Platform} {V : Scalars} (hV : V.Faithful)
    {node node' : ExampleNode} {endpoint manifestUrl : String} {now : DateTime}
    (h : node.publishAt P V endpoint manifestUrl now = .ok node') :
    ∃ manifest, node'.manifest = some manifest ∧ ∀ peer, Relayed V manifest peer →
      Describes node' peer := by
  let p : Publication :=
    { nodeId := node.nodeId, orgId := node.orgId, endpoint, federations := [Federlet.federationId]
      protocolVersions := [protocolVersion], manifestUrl := some manifestUrl }
  have hbind : (do
      let manifest ← buildSignedManifest P V node.key node.keyId p now
      return { node with manifest := some manifest }) = .ok node' := h
  cases hbuilt : buildSignedManifest P V node.key node.keyId p now with
  | error e => simp [hbuilt, bind, Except.bind] at hbind
  | ok manifest =>
    obtain rfl : { node with manifest := some manifest } = node' := by
      simpa [hbuilt, bind, Except.bind, pure, Except.pure] using hbind
    refine ⟨manifest, rfl, fun peer hrelayed => ?_⟩
    have hpublished : Published P V node.key node.keyId p now peer := ⟨manifest, hbuilt, hrelayed⟩
    obtain ⟨unsigned, hunsigned, hkept, _⟩ := hpublished.kept hV
    obtain ⟨hnodeId, _, _, _, hkeys⟩ := Publication.manifest_ok hunsigned
    refine ⟨hkept.nodeId.trans hnodeId, ?_⟩
    rw [hkept.publicKeys, hkeys]
    simp [findJwk, ExampleNode.keyId]

theorem exists_prepared {P : Platform} {V : Scalars} (hV : V.Faithful)
    (hcanon : ∀ a b, a.Same b → P.rfc8785Dumps a = P.rfc8785Dumps b)
    (hsafe : ∀ a, a.safe = true → ∃ data, P.rfc8785Dumps a = .ok data) (client : SigningClient)
    (hclient : client.key.Ideal P) {url : HttpUrl} (draw : Draw)
    (hparse : ∃ parsed, urlparse P url.text = .ok parsed) (hnow : draw.now.utcRepresentable = true)
    (hrevision : Json.safeInt client.manifestRevision = true) (targetNodeId method : String)
    (body : Bytes) :
    ∃ out received, prepareRequest P V client targetNodeId method url.text body [] draw = .ok out ∧
      overWire V out.envelope = .ok received := by
  obtain ⟨parsed, hparsed⟩ := hparse
  let unsigned := client.unsigned P targetNodeId method (String.ofList parsed.path) body draw
  have hstamp : unsigned.timestamp.utcRepresentable = true := hnow
  have hrev : Json.safeInt unsigned.sourceManifestRevision = true := hrevision
  obtain ⟨kvs, hdump⟩ := SignedRequest.dump_ok hstamp
  have hints : Json.safeFields kvs = true := by
    simp only [Model.dump, serTs_stampJson hstamp, bind, Except.bind, pure, Except.pure,
      Except.ok.injEq] at hdump
    subst hdump
    have hunsigned : unsigned.signature = none := rfl
    simp [SignedRequest.fields, Json.safeFields, Json.safe, optional, stampJson, hunsigned, hrev]
  obtain ⟨envelope, received, hsigned, hwire, _⟩ :=
    (settles_signedRequest hV).verifies hcanon hsafe hclient client.keyId hdump hints
  have hheaders : signedHeaders P V client targetNodeId method (String.ofList parsed.path) body
      draw = .ok envelope :=
    hsigned
  refine ⟨⟨method, url.text, body, [], envelope⟩, received, ?_, hwire⟩
  simp only [prepareRequest, hparsed, hheaders, bind, Except.bind, pure, Except.pure]

section Delivered

variable {P : Platform} {V : Scalars} {client : SigningClient} {peer : Manifest}
  {method path : String} {url : HttpUrl} {body : Bytes} {draw : Draw} {out : OutgoingRequest}
  {header : String} {received : SignedRequest}

theorem Delivered.received_eq (hV : V.Faithful)
    (h : Delivered P V client peer method url body draw out header received)
    (hpath : url.path = path.toList) (hbare : ';' ∉ path.toList) :
    ∃ data, received = { client.unsigned P peer.nodeId method path body draw with
      timestamp := draw.now.toSecond
      signature := some { keyId := client.keyId, sig := signBytes client.key data } } := by
  obtain ⟨parsed, data, hparsed, hreceived⟩ := prepareRequest_arrives hV h.sent h.wire
  have hsignedPath : String.ofList parsed.path = path := by
    rw [url.urlparse_path hparsed, hpath, if_neg hbare]
    exact String.ofList_toList
  exact ⟨data, hsignedPath ▸ hreceived⟩

theorem HttpUrl.requestPath_eq {url : HttpUrl} (hpath : url.path = path.toList) (hne : path ≠ "") :
    url.requestPath = path := by
  have hpath' : url.path ≠ [] := by
    rw [hpath, ne_eq, String.toList_eq_nil_iff]
    exact hne
  rw [HttpUrl.requestPath, if_neg hpath', hpath]
  exact String.ofList_toList

theorem Delivered.checked (hV : V.Faithful)
    (hcanon : ∀ a b, a.Same b → P.rfc8785Dumps a = P.rfc8785Dumps b)
    (hsha : Function.Injective P.sha256Hexdigest) (hclient : client.key.Ideal P)
    (h : Delivered P V client peer method url body draw out header received)
    (hpath : url.path = path.toList) (hbare : ';' ∉ path.toList) {node : ExampleNode}
    (hpeer : Describes node peer) {known : Manifest} (hknown : Identifies client known)
    {now : DateTime} (hfresh : ((now.diffMicros draw.now.toSecond).natAbs : Int) ≤ 300 * 1000000) :
    ∃ signature, selectSigner P (some header) known =
      .ok (received, signature, publicJwk client.key) ∧
      checkSignedRequestAt P received (publicJwk client.key) (node.inbound method path body) now =
        .ok (true, "ok") := by
  obtain ⟨data, hreceived⟩ := h.received_eq hV hpath hbare
  have hsignature : received.signature =
      some { keyId := client.keyId, sig := signBytes client.key data } := by
    rw [hreceived]
  have hsource : received.sourceNodeId = known.nodeId := by
    rw [hreceived, hknown.nodeId]
    rfl
  have hfits : EnvelopeFits P received (node.inbound method path body) now := by
    rw [hreceived]
    exact (envelopeFits_iff hsha).mpr ⟨hpeer.nodeId.symm, rfl, rfl, rfl, rfl,
      (DateTime.abs_totalSeconds_le_iff (s := 300) (by decide)).mpr hfresh⟩
  exact ⟨_, selectSigner_ok_iff.mpr
    ⟨header, rfl, h.present, h.parse, hsignature, hsource, hknown.listed⟩,
    (checkSignedRequestAt_honest hV hcanon hclient h.sent h.wire _ _).1 hfits⟩

end Delivered

theorem serve_members_hosted {P : Platform} {V : Scalars} (hV : V.Faithful)
    (hcanon : ∀ a b, a.Same b → P.rfc8785Dumps a = P.rfc8785Dumps b)
    (hsha : Function.Injective P.sha256Hexdigest) (decode : Bytes → Option Json)
    {client : SigningClient} (hclient : client.key.Ideal P) {node : ExampleNode}
    {published : Manifest} (hpublished : node.manifest = some published) {peer : Manifest}
    (hpeer : Describes node peer) {url : HttpUrl}
    (hpath : url.path = "/federation/v1/members".toList) {draw : Draw} {out : OutgoingRequest}
    {header : String} {received : SignedRequest}
    (hdelivered : Delivered P V client peer "GET" url [] draw out header received) {s : HostState}
    {known : Manifest} (hknown : s.trustedPeers.get client.nodeId = some known)
    (hidentifies : Identifies client known)
    (hfresh : ((s.clock.diffMicros draw.now.toSecond).natAbs : Int) ≤ 300 * 1000000)
    (hunseen : nonceCacheKey received ∉ s.seen) {signed : MembersResponse}
    (hsigned : signMembersResponse P V
      { sourceNodeId := node.nodeId, members := s.trustedPeers.entries.map peerRef }
      node.key node.keyId = .ok signed) {payload : List (String × Json)}
    (hdump : Model.dump signed = .ok payload) :
    (node.serve P V decode { method := .get, path := url.requestPath,
                             signatureHeader := some header }).run.eval
      HostState.handle s = (.ok (200, payload),
        { s with seen := nonceCacheKey received :: s.seen }) := by
  obtain ⟨signature, hsel, hcheck⟩ := hdelivered.checked hV hcanon hsha hclient hpath
    (by simp) hpeer hidentifies hfresh
  have hsource : received.sourceNodeId = client.nodeId := by
    obtain ⟨data, hreceived⟩ := hdelivered.received_eq hV hpath (by simp)
    rw [hreceived]
    rfl
  have hauth := authenticateKnownPeer_hosted hdelivered.present hdelivered.parse (hsource ▸ hknown)
    hsel hcheck hunseen
  have hmembers := @signedMembersResponse_hosted P V node
    { s with seen := nonceCacheKey received :: s.seen } published hpublished signed
    payload hsigned hdump
  rw [HttpUrl.requestPath_eq hpath (by decide), ExampleNode.serve_members P V decode hpublished,
    ExampleNode.handleMembers, Task.eval_run_bind, hauth, Task.andThen_ok]
  simp only [Bool.not_true, Bool.false_eq_true, ↓reduceIte]
  rw [Task.eval_run_bind, hmembers]
  rfl

/-- A client asks a host that knows it for its members, and gets them. -/
theorem members_reach_client (P : Platform) (V : Scalars) (hV : V.Faithful)
    (hcanon : ∀ a b, a.Same b → P.rfc8785Dumps a = P.rfc8785Dumps b)
    (hsafe : ∀ a, a.safe = true → ∃ data, P.rfc8785Dumps a = .ok data)
    (hsha : Function.Injective P.sha256Hexdigest) (decode : Bytes → Option Json)
    (client : SigningClient) (hclient : client.key.Ideal P) (node : ExampleNode)
    (hnode : node.key.Ideal P) (published : Manifest) (hpublished : node.manifest = some published)
    (peer : Manifest) (hpeer : Describes node peer) (url : HttpUrl)
    (hurl : peer.membership.membersUrl = url.text)
    (hpath : url.path = "/federation/v1/members".toList) (draw : Draw) (out : OutgoingRequest)
    (header : String) (received : SignedRequest)
    (hdelivered : Delivered P V client peer "GET" url [] draw out header received) (s : HostState)
    (known : Manifest) (hknown : s.trustedPeers.get client.nodeId = some known)
    (hidentifies : Identifies client known)
    (hfresh : ((s.clock.diffMicros draw.now.toSecond).natAbs : Int) ≤ 300 * 1000000)
    (hunseen : nonceCacheKey received ∉ s.seen)
    (hrevisions : ∀ m ∈ s.trustedPeers.entries, Json.safeInt m.revision = true) :
    ∃ payload resp,
      (node.serve P V decode { method := .get, path := url.requestPath,
                               signatureHeader := some header }).run.eval
          HostState.handle s = (.ok (200, payload),
            { s with seen := nonceCacheKey received :: s.seen }) ∧
        (client.getMembers P V peer none).run.Replays
          [⟨.draw, draw⟩, ⟨.http out, .ok { raiseForStatus := .ok (), json := .ok (.obj payload) }⟩]
          (.ok resp) ∧
        resp.sourceNodeId = node.nodeId ∧ resp.members = s.trustedPeers.entries.map peerRef := by
  obtain ⟨signed, resp, payload, hsigned, hsent, hdump⟩ :=
    members_signed hV hcanon hsafe hnode hrevisions
  obtain ⟨sig, hsignedEq⟩ := MembersResponse.signModel_eq hV hsigned
  have hrespEq := MembersResponse.overWire_eq hV hsent
  have hreply := WireType.signedReply_ok (t := .membersResponse) hV hcanon hnode hsigned hdump
    hsent hpeer.listed
  refine ⟨payload, resp, ?_, ?_, by rw [hrespEq, hsignedEq], by rw [hrespEq, hsignedEq]⟩
  · exact serve_members_hosted hV hcanon hsha decode hclient hpublished hpeer hpath hdelivered
      hknown hidentifies hfresh hunseen hsigned hdump
  · rw [SigningClient.getMembers, send_run, hurl]
    exact oneRequest_replays hdelivered.sent rfl hreply

section Introduction

variable {P : Platform} {V : Scalars} {node : ExampleNode} {client : SigningClient} {s : HostState}

theorem IntroduceRequest.dump_eq (intro : IntroduceRequest) : Model.dump intro =
    (Model.dump intro.manifest).bind fun manifest => (serTs intro.timestamp).bind fun timestamp =>
      .ok [("federation_id", .str intro.federationId), ("manifest_url", .str intro.manifestUrl),
        ("manifest", .obj manifest), ("requested_disclosure", .str intro.requestedDisclosure),
        ("nonce", .str intro.nonce), ("timestamp", timestamp)] := rfl

theorem IntroduceRequest.read_dump (hV : V.Faithful) {intro : IntroduceRequest}
    {kvs : List (String × Json)} (hdump : Model.dump intro = .ok kvs) :
    ∃ manifest, overWire V intro.manifest = .ok manifest ∧
      (Validated.read V (.obj kvs) : Option IntroduceRequest) =
        some { intro with manifest, timestamp := intro.timestamp.toSecond } := by
  rw [IntroduceRequest.dump_eq] at hdump
  cases hmanifest : Model.dump intro.manifest with
  | error e => simp [hmanifest, Except.bind] at hdump
  | ok fields =>
  cases hts : serTs intro.timestamp with
  | error e => simp [hmanifest, hts, Except.bind] at hdump
  | ok timestamp =>
    obtain ⟨hr, rfl⟩ := serTs_ok hts
    obtain ⟨manifest, hsent⟩ := (settles_manifest hV).exists_hop hmanifest
    have hread : (Validated.read V (.obj fields) : Option Manifest) = some manifest := by
      rw [overWire, hmanifest] at hsent
      exact elim_ok_iff.mp hsent
    simp only [hmanifest, hts, Except.bind, Except.ok.injEq] at hdump
    subst hdump
    refine ⟨manifest, hsent, ?_⟩
    show (readObject _ _ : Option IntroduceRequest) = _
    simp [readObject, required, defaulting_eq, lookup_field, readStr, hV.stampJson hr, hread]

theorem IntroduceResponse.read_all (hV : V.Faithful) {r r' : IntroduceResponse}
    (huntil : r.acceptedUntil = none) :
    ∃ fields, DumpsAs r fields r.signature ∧ ∀ signature',
      Validated.read V (.obj (fields ++ optional "signature" Signature.toJson signature')) =
        some r' →
        r' = { r with signature := signature' } := by
  have hunsigned : ∀ kv ∈ [("accepted", Json.bool r.accepted)] ++ optional "accepted_node_id" .str
      r.acceptedNodeId ++ optional "accepted_manifest_revision" .int r.acceptedManifestRevision ++
      [] ++ optional "reason" .str r.reason ++
      optional "membership_cursor" .str r.membershipCursor ++ optional "known_peer_count" .int
      r.knownPeerCount,
      kv.1 ≠ "signature" := by
    simp only [List.forall_mem_append, forall_mem_optional]
    simp
  refine ⟨_, ⟨?_, hunsigned⟩, fun signature' h => ?_⟩
  · simp [Model.dump, huntil, optionalTs, bind, Except.bind, pure, Except.pure]
  · simp [Validated.read, readObject, required, defaulting_eq, lookup_field, lookup_optional,
      List.lookup_append, hV.bool, hV.nullable_int] at h
    rw [← h, huntil]

theorem IntroduceResponse.signModel_eq (hV : V.Faithful) {r signed : IntroduceResponse}
    (huntil : r.acceptedUntil = none) {key : Ed25519PrivateKey} {keyId : String}
    (h : signModel P V r key keyId = .ok signed) :
    ∃ sig, signed = { r with signature := some { keyId, sig } } := by
  obtain ⟨fields, hm, hread⟩ := @IntroduceResponse.read_all V hV r signed huntil
  obtain ⟨data, _, hsigned⟩ := hm.signModel_iff.mp h
  exact ⟨_, hread _ hsigned⟩

theorem IntroduceResponse.overWire_eq (hV : V.Faithful) {r r' : IntroduceResponse}
    (huntil : r.acceptedUntil = none) (h : overWire V r = .ok r') : r' = r := by
  obtain ⟨fields, hm, hread⟩ := @IntroduceResponse.read_all V hV r r' huntil
  exact hread _ (hm.overWire_iff.mp h)

def ExampleNode.welcome (manifest : Manifest)
    (trusted : Keyed Manifest.nodeId) : IntroduceResponse :=
  { accepted := true, acceptedNodeId := some manifest.nodeId,
    acceptedManifestRevision := some manifest.revision
    knownPeerCount := some trusted.entries.length }

theorem welcome_signed (hV : V.Faithful)
    (hcanon : ∀ a b, a.Same b → P.rfc8785Dumps a = P.rfc8785Dumps b)
    (hsafe : ∀ a, a.safe = true → ∃ data, P.rfc8785Dumps a = .ok data) (hnode : node.key.Ideal P)
    {manifest : Manifest} {trusted : Keyed Manifest.nodeId}
    (hrevision : Json.safeInt manifest.revision = true)
    (hcount : Json.safeInt trusted.entries.length = true) :
    ∃ signed received payload, signIntroduceResponse P V (ExampleNode.welcome manifest trusted)
      node.key node.keyId = .ok signed ∧ overWire V signed = .ok received ∧
        Model.dump signed = .ok payload := by
  have hhints : ∀ kvs, Model.dump (ExampleNode.welcome manifest trusted) = .ok kvs →
      Json.safeFields kvs = true := by
    intro kvs h
    obtain rfl := Except.ok.inj h
    simp [ExampleNode.welcome, optional, Json.safeFields, Json.safe, hrevision, hcount]
  obtain ⟨signed, received, hsigned, hsent, _⟩ :=
    (settles_introduceResponse hV).verifies hcanon hsafe hnode node.keyId
    (m := ExampleNode.welcome manifest trusted) rfl (hhints _ rfl)
  obtain ⟨payload, hdump⟩ : ∃ payload, Model.dump signed = .ok payload := by
    cases hdump : Model.dump signed with
    | error e => simp [overWire, hdump, bind, Except.bind] at hsent
    | ok payload => exact ⟨payload, rfl⟩
  exact ⟨signed, received, payload, hsigned, hsent, hdump⟩

theorem handleIntroduce_hosted {decode : Bytes → Option Json} {body : Bytes}
    {header : Option String} {intro : IntroduceRequest}
    (hbody : (decode body).bind (Validated.read V) = some intro)
    (hmanifest : checkManifestAt P intro.manifest s.clock 300 = .ok (true, "ok"))
    {env : SignedRequest} {signature : Signature} {jwk : JWK}
    (hsel : selectSigner P header intro.manifest = .ok (env, signature, jwk))
    (hcheck : checkSignedRequestAt P env jwk
      (node.inbound "POST" "/federation/v1/members/introduce" body) s.clock =
      .ok (true, "ok")) (hunseen : nonceCacheKey env ∉ s.seen) {signed : IntroduceResponse}
    (hsigned : signIntroduceResponse P V
      (ExampleNode.welcome intro.manifest (s.trustedPeers.upsert intro.manifest))
      node.key node.keyId = .ok signed) {payload : List (String × Json)}
    (hdump : Model.dump signed = .ok payload) :
    (node.handleIntroduce P V decode body header).run.eval HostState.handle s =
      (.ok (200, payload), { s with
        trustedPeers := s.trustedPeers.upsert intro.manifest
        seen := nonceCacheKey env :: s.seen }) := by
  have hverify := @verifyPeerRequest_hosted P header intro.manifest
    (node.inbound "POST" "/federation/v1/members/introduce" body) env signature jwk s rfl hsel
  rw [hcheck, HostState.claim, if_neg hunseen] at hverify
  simp only [ExampleNode.handleIntroduce, hbody]
  rw [Task.eval_run_bind, checkManifest_hosted, hmanifest, Task.andThen_ok]
  simp only [Bool.not_true, Bool.false_eq_true, ↓reduceIte]
  rw [Task.eval_run_bind, Task.run_attempt, Task.eval_bind, hverify]
  have hput (s : HostState) : (trustedPut intro.manifest).run.eval HostState.handle s =
      (.ok (), { s with trustedPeers := s.trustedPeers.upsert intro.manifest }) := rfl
  have hvalues (s : HostState) :
      trustedValues.run.eval HostState.handle s = (.ok s.trustedPeers.entries, s) := rfl
  simp only [Task.eval_done, Task.andThen_ok, peerOf]
  rw [Task.eval_run_bind, hput, Task.andThen_ok, Task.eval_run_bind, hvalues, Task.andThen_ok,
    Task.eval_run_bind, Task.run_lift, Task.eval_done]
  have hwelcome : signIntroduceResponse P V
      { accepted := true, acceptedNodeId := some intro.manifest.nodeId
        acceptedManifestRevision := some intro.manifest.revision
        knownPeerCount := some (s.trustedPeers.upsert intro.manifest).entries.length }
      node.key node.keyId = .ok signed := hsigned
  rw [hwelcome, Task.andThen_ok, Task.eval_run_bind, Task.run_lift, hdump]
  rfl

end Introduction

theorem serve_introduce_hosted {P : Platform} {V : Scalars} (hV : V.Faithful)
    (hcanon : ∀ a b, a.Same b → P.rfc8785Dumps a = P.rfc8785Dumps b)
    (hsafe : ∀ a, a.safe = true → ∃ data, P.rfc8785Dumps a = .ok data)
    (hsha : Function.Injective P.sha256Hexdigest) {encode : Json → Bytes}
    {decode : Bytes → Option Json} {client : SigningClient} (hclient : client.key.Ideal P)
    {node : ExampleNode} (hnode : node.key.Ideal P) {peer : Manifest} (hpeer : Describes node peer)
    {url : HttpUrl} (hpath : url.path = "/federation/v1/members/introduce".toList) {p : Publication}
    (hid : p.nodeId = client.nodeId) (hrevision : Json.safeInt p.revision = true)
    {published : DateTime} {intro : IntroduceRequest}
    (hpublished : Published P V client.key client.keyId p published intro.manifest)
    {body : List (String × Json)} (hdump : Model.dump intro = .ok body)
    (hjson : decode (encode (.obj body)) = some (.obj body)) {draw : Draw} {out : OutgoingRequest}
    {header : String} {received : SignedRequest}
    (hdelivered : Delivered P V client peer "POST" url (encode (.obj body)) draw out header
      received) {s : HostState}
    (hbounds : WithinCalendar (intro.manifest.issuedAt.map .toSecond)
      (intro.manifest.expiresAt.map .toSecond) s.clock 300)
    (hdates : timeVerdict (intro.manifest.issuedAt.map .toSecond)
      (intro.manifest.expiresAt.map .toSecond) s.clock 300 = (true, "ok"))
    (hfresh : ((s.clock.diffMicros draw.now.toSecond).natAbs : Int) ≤ 300 * 1000000)
    (hunseen : nonceCacheKey received ∉ s.seen)
    (hcount : s.trustedPeers.entries.length < 9007199254740991) :
    ∃ manifest signed resp payload,
      Published P V client.key client.keyId p published manifest ∧ Identifies client manifest ∧
        manifest.revision = p.revision ∧
        signIntroduceResponse P V (ExampleNode.welcome manifest (s.trustedPeers.upsert manifest))
          node.key node.keyId = .ok signed ∧ overWire V signed = .ok resp ∧
            Model.dump signed = .ok payload ∧
        (node.serve P V decode { method := .post, path := url.requestPath,
                                 signatureHeader := some header
                                 body := encode (.obj body) }).run.eval HostState.handle s =
          (.ok (200, payload), { s with
            trustedPeers := s.trustedPeers.upsert manifest
            seen := nonceCacheKey received :: s.seen }) := by
  obtain ⟨manifest, hsent, hread⟩ := IntroduceRequest.read_dump hV hdump
  have hmanifest := hpublished.sent hsent
  obtain ⟨unsigned, hunsigned, hkept, _⟩ := hmanifest.kept hV
  obtain ⟨hnodeId, _, _, hrevisionEq, hkeys⟩ := Publication.manifest_ok hunsigned
  obtain ⟨hwire, _⟩ := Manifest.overWire_kept hV hsent
  have hidentifies : Identifies client manifest := by
    refine ⟨hkept.nodeId.trans (hnodeId.trans hid), ?_⟩
    rw [hkept.publicKeys, hkeys]
    simp [findJwk]
  have hrev : manifest.revision = p.revision := hkept.revision.trans hrevisionEq
  have hcheckManifest : checkManifestAt P manifest s.clock 300 = .ok (true, "ok") := by
    rw [← hwire.issuedAt, ← hwire.expiresAt] at hbounds hdates
    rw [hmanifest.judged hV hcanon hclient (by decide) hbounds, hdates]
  obtain ⟨signature, hsel, hcheck⟩ := hdelivered.checked hV hcanon hsha hclient hpath
    (by simp) hpeer hidentifies hfresh
  have hlength : Json.safeInt (s.trustedPeers.upsert manifest).entries.length = true := by
    have hle := Keyed.length_upsert_le s.trustedPeers manifest
    simp only [Json.safeInt, decide_eq_true_eq]
    omega
  obtain ⟨signed, resp, payload, hsigned, hback, hpayload⟩ := welcome_signed hV hcanon hsafe hnode
    (hrev ▸ hrevision) hlength
  have hdecoded : (decode (encode (.obj body))).bind (Validated.read V) =
      some { intro with manifest, timestamp := intro.timestamp.toSecond } :=
        by rw [hjson, Option.bind_some, hread]
  refine ⟨manifest, signed, resp, payload, hmanifest, hidentifies, hrev, hsigned,
    hback, hpayload, ?_⟩
  rw [HttpUrl.requestPath_eq hpath (by decide)]
  exact handleIntroduce_hosted hdecoded hcheckManifest hsel hcheck hunseen hsigned hpayload

/-- A newcomer introduces itself to a host with the manifest it published, and is from
then on among those that the host answers. -/
theorem introduction_reaches_host (P : Platform) (V : Scalars) (hV : V.Faithful)
    (hcanon : ∀ a b, a.Same b → P.rfc8785Dumps a = P.rfc8785Dumps b)
    (hsafe : ∀ a, a.safe = true → ∃ data, P.rfc8785Dumps a = .ok data)
    (hsha : Function.Injective P.sha256Hexdigest) (encode : Json → Bytes)
    (decode : Bytes → Option Json) (client : SigningClient) (hclient : client.key.Ideal P)
    (node : ExampleNode) (hnode : node.key.Ideal P) (peer : Manifest) (hpeer : Describes node peer)
    (url : HttpUrl) (hurl : peer.membership.introduceUrl = url.text)
    (hpath : url.path = "/federation/v1/members/introduce".toList) (p : Publication)
    (hid : p.nodeId = client.nodeId) (hrevision : Json.safeInt p.revision = true)
    (published : DateTime) (intro : IntroduceRequest)
    (hpublished : Published P V client.key client.keyId p published intro.manifest)
    (body : List (String × Json)) (hdump : Model.dump intro = .ok body)
    (hjson : decode (encode (.obj body)) = some (.obj body)) (draw : Draw) (out : OutgoingRequest)
    (header : String) (received : SignedRequest)
    (hdelivered : Delivered P V client peer "POST" url (encode (.obj body)) draw out header
      received) (s : HostState)
    (hbounds : WithinCalendar (intro.manifest.issuedAt.map .toSecond)
      (intro.manifest.expiresAt.map .toSecond) s.clock 300)
    (hdates : timeVerdict (intro.manifest.issuedAt.map .toSecond)
      (intro.manifest.expiresAt.map .toSecond) s.clock 300 = (true, "ok"))
    (hfresh : ((s.clock.diffMicros draw.now.toSecond).natAbs : Int) ≤ 300 * 1000000)
    (hunseen : nonceCacheKey received ∉ s.seen)
    (hcount : s.trustedPeers.entries.length < 9007199254740991) :
    ∃ manifest payload resp,
      Published P V client.key client.keyId p published manifest ∧ Identifies client manifest ∧
        (node.serve P V decode { method := .post, path := url.requestPath,
                                 signatureHeader := some header
                                 body := encode (.obj body) }).run.eval HostState.handle s =
          (.ok (200, payload), { s with
            trustedPeers := s.trustedPeers.upsert manifest
            seen := nonceCacheKey received :: s.seen }) ∧
        (client.introduce P V encode peer intro).run.Replays
          [⟨.draw, draw⟩, ⟨.http out, .ok { raiseForStatus := .ok (), json := .ok (.obj payload) }⟩]
          (.ok resp) ∧
        resp.accepted = true ∧ resp.acceptedNodeId = some client.nodeId ∧
        resp.acceptedManifestRevision = some p.revision ∧
        resp.knownPeerCount = some (s.trustedPeers.upsert manifest).entries.length := by
  obtain ⟨manifest, signed, resp, payload, hmanifest, hidentifies, hrev, hsigned, hback,
    hpayload, hserved⟩ :=
    serve_introduce_hosted hV hcanon hsafe hsha hclient hnode hpeer hpath hid hrevision hpublished
      hdump hjson hdelivered hbounds hdates hfresh hunseen hcount
  obtain ⟨sig, hsignedEq⟩ := IntroduceResponse.signModel_eq hV rfl hsigned
  have hrespEq := IntroduceResponse.overWire_eq hV (by rw [hsignedEq]; rfl) hback
  have hresp : resp = { ExampleNode.welcome manifest (s.trustedPeers.upsert manifest) with
      signature := some { keyId := node.keyId, sig } } := hrespEq.trans hsignedEq
  have hreply := WireType.signedReply_ok (t := .introduceResponse) hV hcanon hnode hsigned hpayload
    hback hpeer.listed
  refine ⟨manifest, payload, resp, hmanifest, hidentifies, hserved, ?_,
    by rw [hresp]; rfl, ?_, ?_, by rw [hresp]; rfl⟩
  · have hrun : (client.introduce P V encode peer intro).run = oneRequest
        (signedReply P V IntroduceResponse.signature peer)
        (prepareRequest P V client peer.nodeId "POST" url.text (encode (.obj body)) []) := by
      rw [← hurl, ← send_run, SigningClient.introduce, Task.run_bind, Task.run_lift, hdump]
      rfl
    rw [hrun]
    exact oneRequest_replays hdelivered.sent rfl hreply
  · rw [hresp]
    exact congrArg some hidentifies.nodeId
  · rw [hresp]
    exact congrArg some hrev

theorem hostUrl_tail : ∀ c ∈ ([] : List Char).head?, c = '?' ∨ c = '#' := by simp

theorem hostUrl_plain (path : List Char) (hplain : ∀ c ∈ path, plainChar c = true) :
    ∀ c ∈ "https".toList ++ "beta.example".toList ++ path ++ [], plainChar c = true := by
  simp only [List.append_nil, List.forall_mem_append]
  exact ⟨⟨by simp [plainChar], by simp [plainChar]⟩, hplain⟩

def hostUrl (path : List Char) (hrooted : ∀ c ∈ path.head?, c = '/')
    (hplain : ∀ c ∈ path, plainChar c = true) (hend : ∀ c ∈ path, c ≠ '?' ∧ c ≠ '#') : HttpUrl where
  scheme := "https".toList
  authority := "beta.example".toList
  path := path
  tail := []
  scheme_http := membersUrl.scheme_http
  authority_end := membersUrl.authority_end
  path_rooted := hrooted
  path_end := hend
  tail_start := hostUrl_tail
  plain := hostUrl_plain path hplain

theorem membersPath_rooted : ∀ c ∈ "/federation/v1/members".toList.head?, c = '/' := by simp

theorem membersPath_plain : ∀ c ∈ "/federation/v1/members".toList, plainChar c = true :=
  by simp [plainChar]

theorem membersPath_end : ∀ c ∈ "/federation/v1/members".toList, c ≠ '?' ∧ c ≠ '#' := by simp

def hostMembersUrl : HttpUrl :=
  hostUrl "/federation/v1/members".toList membersPath_rooted membersPath_plain membersPath_end

theorem introducePath_rooted :
    ∀ c ∈ "/federation/v1/members/introduce".toList.head?, c = '/' := by simp

theorem introducePath_plain : ∀ c ∈ "/federation/v1/members/introduce".toList, plainChar c = true :=
  by simp [plainChar]

theorem introducePath_end : ∀ c ∈ "/federation/v1/members/introduce".toList, c ≠ '?' ∧
    c ≠ '#' := by simp

def hostIntroduceUrl : HttpUrl :=
  hostUrl "/federation/v1/members/introduce".toList introducePath_rooted introducePath_plain
    introducePath_end

def hostManifest : Manifest :=
  { signerManifest with
    nodeId := "beta"
    publicKeys := [{ keyId := "beta-k1", publicJwk := publicJwk spareSigner }]
    membership := { introduceUrl := hostIntroduceUrl.text, membersUrl := hostMembersUrl.text } }

def betaHost : ExampleNode :=
  { nodeId := "beta", orgId := "beta", key := spareSigner, manifest := some hostManifest }

theorem betaHost_describes : Describes betaHost hostManifest := by
  have hkeyId : betaHost.keyId = "beta-k1" := by decide
  exact ⟨rfl, by rw [hkeyId]; rfl⟩

/-- The platform of both, which reads one envelope from every header. -/
def hostPlatform (received : SignedRequest) : Platform :=
  { publishingPlatform with parseSignedRequest := fun _ => some received }

theorem Published.parse {P : Platform} {V : Scalars} {key : Ed25519PrivateKey} {keyId : String}
    {p : Publication} {published : DateTime} {received : Manifest}
    (h : Published P V key keyId p published received) (parse : String → Option SignedRequest) :
    Published { P with parseSignedRequest := parse } V key keyId p published received :=
  ⟨h.exists_built⟩

theorem alpha_delivered (url : HttpUrl) (hauthority : url.authority = "beta.example".toList)
    (method : String) (body : Bytes) :
    ∃ out received, Delivered (hostPlatform received) strictScalars alphaClient hostManifest method
      url body alphaDraw out "envelope" received := by
  have hparse : ∃ parsed, urlparse publishingPlatform url.text = .ok parsed :=
    url.exists_urlparse (by simp [hauthority]) (by simp [hauthority]) (by rw [hauthority]; rfl)
  obtain ⟨out, received, hsend, hwire⟩ :=
    exists_prepared strictScalars_faithful (fun _ _ => dictDumps_congr)
    (fun _ => dictDumps_safe) alphaClient alphaSigner_publishes alphaDraw hparse
    (by decide) (by decide) "beta" method body
  have hsent := (prepareRequest_parse publishingPlatform (fun _ => some received) strictScalars
    alphaClient "beta" method url.text body [] alphaDraw).trans hsend
  exact ⟨out, received, hsent, hwire, by decide, rfl⟩

theorem alphaSigner_host (received : SignedRequest) : alphaSigner.Ideal (hostPlatform received) :=
  fun data data' => alphaSigner_publishes data data'

theorem spareSigner_host (received : SignedRequest) : spareSigner.Ideal (hostPlatform received) :=
  fun data data' => spareSigner_publishes data data'

def knowingState : HostState := { clock := newYear2026, trustedPeers := .ofList [signerManifest] }

theorem alpha_members : ∃ received payload,
    (betaHost.serve (hostPlatform received) strictScalars (fun _ => none)
      { method := .get, path := hostMembersUrl.requestPath,
        signatureHeader := some "envelope" }).run.eval HostState.handle
        knowingState = (.ok (200, payload),
          { knowingState with seen := [nonceCacheKey received] }) := by
  obtain ⟨out, received, hdelivered⟩ := alpha_delivered hostMembersUrl rfl "GET" []
  obtain ⟨payload, _, hserved, _⟩ := members_reach_client (hostPlatform received) strictScalars
    strictScalars_faithful (fun _ _ => dictDumps_congr) (fun _ => dictDumps_safe)
    (exchange_sha256_injective getMembersRequest) (fun _ => none) alphaClient
    (alphaSigner_host received) betaHost (spareSigner_host received) hostManifest rfl hostManifest
    betaHost_describes hostMembersUrl rfl rfl alphaDraw out "envelope" received hdelivered
    knowingState signerManifest rfl ⟨rfl, rfl⟩ (by decide) (by simp [knowingState]) (by decide)
  exact ⟨received, payload, hserved⟩

def lonelyState : HostState := { clock := newYear2026 }

def introductionOf (manifest : Manifest) : IntroduceRequest :=
  { federationId := "fed", manifestUrl := "https://alpha.example/manifest", manifest, nonce := "n"
    timestamp := newYear2026 }

def introEncode (j : Json) : Bytes := Canonical.utf8 (Canonical.render j)

def introDecode (document : Json) (body : Bytes) : Option Json :=
  if body = introEncode document then some document else none

def weekLater : DateTime := .utc 63903427200000000 (by decide)

theorem alphaPublication_dates {built : Manifest}
    (h : Published publishingPlatform strictScalars alphaSigner "k1" alphaPublication
      newYear2026 built) :
    built.issuedAt.map .toSecond = some newYear2026 ∧
      built.expiresAt.map .toSecond = some weekLater := by
  obtain ⟨unsigned, hunsigned, hkept, _⟩ := h.kept strictScalars_faithful
  rw [hkept.issuedAt, hkept.expiresAt]
  obtain rfl := Except.ok.inj hunsigned
  exact ⟨by decide, by decide⟩

theorem alpha_introduction : ∃ built body out received,
    Published publishingPlatform strictScalars alphaSigner "k1" alphaPublication newYear2026 built ∧
      Model.dump (introductionOf built) = .ok body ∧
      Delivered (hostPlatform received) strictScalars alphaClient hostManifest "POST"
        hostIntroduceUrl (introEncode (.obj body)) alphaDraw out "envelope" received ∧
      WithinCalendar (built.issuedAt.map .toSecond) (built.expiresAt.map .toSecond)
        newYear2026 300 ∧
      timeVerdict (built.issuedAt.map .toSecond) (built.expiresAt.map .toSecond) newYear2026 300 =
        (true, "ok") := by
  obtain ⟨built, fields, hbuilt, hfields⟩ :=
    alphaPublication_built alphaSigner "k1" alphaSigner_publishes
  obtain ⟨hissued, hexpires⟩ := alphaPublication_dates hbuilt
  obtain ⟨body, hdump⟩ : ∃ body, Model.dump (introductionOf built) = .ok body := by
    rw [IntroduceRequest.dump_eq, introductionOf, hfields]
    exact ⟨_, rfl⟩
  obtain ⟨out, received, hdelivered⟩ := alpha_delivered hostIntroduceUrl rfl "POST"
    (introEncode (.obj body))
  refine ⟨built, body, out, received, hbuilt, hdump, hdelivered, ?_, ?_⟩
  · rw [hissued, hexpires]
    exact ⟨by decide, by simp; decide, by simp; decide⟩
  · rw [hissued, hexpires]
    decide

theorem alpha_introduced : ∃ received decode body manifest payload,
    (betaHost.serve (hostPlatform received) strictScalars decode
      { method := .post, path := hostIntroduceUrl.requestPath, signatureHeader := some "envelope",
        body }).run.eval
        HostState.handle lonelyState =
      (.ok (200, payload), { lonelyState with
        trustedPeers := lonelyState.trustedPeers.upsert manifest
        seen := [nonceCacheKey received] }) := by
  obtain ⟨built, body, out, received, hbuilt, hdump, hdelivered, hbounds, hdates⟩ :=
    alpha_introduction
  obtain ⟨manifest, payload, _, _, _, hserved, _⟩ :=
    introduction_reaches_host (hostPlatform received) strictScalars
    strictScalars_faithful (fun _ _ => dictDumps_congr) (fun _ => dictDumps_safe)
    (exchange_sha256_injective getMembersRequest) introEncode (introDecode (.obj body)) alphaClient
    (alphaSigner_host received) betaHost (spareSigner_host received) hostManifest betaHost_describes
    hostIntroduceUrl rfl rfl alphaPublication rfl (by decide) newYear2026 (introductionOf built)
    (hbuilt.parse _) body hdump (if_pos rfl) alphaDraw out "envelope" received hdelivered
    lonelyState hbounds hdates (by decide) (by simp [lonelyState]) (by decide)
  exact ⟨received, _, _, manifest, payload, hserved⟩

end Federlet
