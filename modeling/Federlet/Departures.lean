import Federlet.Calls
import Federlet.Fetches

/-! Revocations on their way: built and signed by one node, relayed by any others and
applied by a third. -/

namespace Federlet

open Coop

/-- `build_revocation`; `now` is the time it reads if none is given. -/
def buildRevocation (P : Platform) (V : Scalars) (revokedNodeId issuer federationId : String)
    (key : Ed25519PrivateKey) (keyId reason : String) (issuedAt expiresAt : Option DateTime)
    (now : DateTime) :
    Except Exc RevocationNotice :=
  let notice : RevocationNotice :=
    { federationId, revokedNodeId, reason, issuedAt := issuedAt.getD now, expiresAt, issuer }
  signModel P V notice key keyId

def buildSelfRevocation (P : Platform) (V : Scalars) (nodeId federationId : String)
    (key : Ed25519PrivateKey) (keyId reason : String) (expiresAt : Option DateTime)
    (now : DateTime) : Except Exc RevocationNotice :=
  buildRevocation P V nodeId nodeId federationId key keyId reason none expiresAt now

def signRevocationsResponse (P : Platform) (V : Scalars) (response : RevocationsResponse)
    (key : Ed25519PrivateKey) (keyId : String) : Except Exc RevocationsResponse :=
  signModel P V response key keyId

structure SaysSame (n n' : RevocationNotice) : Prop where
  federationId : n'.federationId = n.federationId
  revokedNodeId : n'.revokedNodeId = n.revokedNodeId
  reason : n'.reason = n.reason
  issuer : n'.issuer = n.issuer

theorem SaysSame.trans {a b c : RevocationNotice} (h : SaysSame a b) (h' : SaysSame b c) :
    SaysSame a c :=
  ⟨h'.federationId.trans h.federationId, h'.revokedNodeId.trans h.revokedNodeId,
    h'.reason.trans h.reason, h'.issuer.trans h.issuer⟩

section Notices

variable {P : Platform} {V : Scalars} {n n' : RevocationNotice}

theorem RevocationNotice.dumpsAs {kvs : List (String × Json)} (h : Model.dump n = .ok kvs) :
    ∃ fields, DumpsAs n fields n.signature ∧ ∀ signature' n', Validated.read V (.obj (fields ++
      optional "signature" Signature.toJson signature')) = some n' → SaysSame n n' ∧
        n'.signature = signature' := by
  cases hissued : serTs n.issuedAt with
  | error e => simp [Model.dump, hissued, bind, Except.bind] at h
  | ok issuedAt =>
  cases hexpires : optionalTs "expires_at" n.expiresAt with
  | error e => simp [Model.dump, hissued, hexpires, bind, Except.bind] at h
  | ok expiresAt =>
    obtain ⟨_, rfl⟩ := optionalTs_ok hexpires
    have hunsigned :
        ∀ kv ∈ [("federation_id", Json.str n.federationId),
          ("revoked_node_id", .str n.revokedNodeId),
        ("reason", .str n.reason), ("issued_at", issuedAt)] ++ optional "expires_at" stampJson
      n.expiresAt ++
        [("issuer", .str n.issuer)], kv.1 ≠ "signature" := by
      simp only [List.forall_mem_append, forall_mem_optional]
      simp
    refine ⟨_, ⟨?_, hunsigned⟩, fun signature' n' hread => ?_⟩
    · simp only [Model.dump, hissued, hexpires, bind, Except.bind, pure, Except.pure]
    · obtain ⟨_, hdoc, hread⟩ := readObject_some hread
      cases hdoc
      obtain ⟨federationId, hfederation, hread⟩ := Option.bind_eq_some_iff.mp hread
      obtain ⟨revokedNodeId, hrevoked, hread⟩ := Option.bind_eq_some_iff.mp hread
      obtain ⟨reason, hreason, hread⟩ := Option.bind_eq_some_iff.mp hread
      obtain ⟨_, _, hread⟩ := Option.bind_eq_some_iff.mp hread
      obtain ⟨_, _, hread⟩ := Option.bind_eq_some_iff.mp hread
      obtain ⟨issuer, hissuer, hread⟩ := Option.bind_eq_some_iff.mp hread
      obtain ⟨signature, hsignature, hread⟩ := Option.bind_eq_some_iff.mp hread
      obtain rfl := Option.some.inj hread
      simp [required, lookup_field, readStr] at hfederation hrevoked hreason
      simp [required, lookup_field, List.lookup_append, lookup_optional, readStr] at hissuer
      simp [defaulting_eq, lookup_field, List.lookup_append, lookup_optional] at hsignature
      exact ⟨⟨hfederation.symm, hrevoked.symm, hreason.symm, hissuer.symm⟩, hsignature.symm⟩

theorem overWire_keeps (h : overWire V n = .ok n') :
    SaysSame n n' ∧ n'.signature = n.signature := by
  cases hdump : Model.dump n with
  | error e => simp [overWire, hdump, bind, Except.bind] at h
  | ok kvs =>
    obtain ⟨fields, hn, hread⟩ := RevocationNotice.dumpsAs hdump
    exact hread n.signature n' (hn.overWire_iff.mp h)

theorem signModel_keeps {key : Ed25519PrivateKey} {keyId : String}
    (h : signModel P V n key keyId = .ok n') :
    SaysSame n n' ∧ ∃ s, n'.signature = some s ∧ s.keyId = keyId := by
  cases hdump : Model.dump n with
  | error e => simp [signModel, hdump, bind, Except.bind] at h
  | ok kvs =>
    obtain ⟨fields, hn, hread⟩ := RevocationNotice.dumpsAs hdump
    obtain ⟨data, _, hsigned⟩ := hn.signModel_iff.mp h
    obtain ⟨hkept, hsignature⟩ := hread _ n' hsigned
    exact ⟨hkept, _, hsignature, rfl⟩

theorem relayed_keeps (h : Relayed V n n') : SaysSame n n' ∧ n'.signature = n.signature := by
  induction h with
  | refl => exact ⟨⟨rfl, rfl, rfl, rfl⟩, rfl⟩
  | tail _ hhop ih =>
    obtain ⟨hkept, hsignature⟩ := overWire_keeps hhop
    exact ⟨ih.1.trans hkept, hsignature.trans ih.2⟩

theorem effective_relayed (hV : V.Faithful)
    (hcanon : ∀ a b, a.Same b → P.rfc8785Dumps a = P.rfc8785Dumps b) (h : Relayed V n n')
    {authorize : RevocationNotice → Bool} (hauthorize : authorize n' = authorize n)
    (federationId : String) (keys : Dict JWK) :
    n'.effective P federationId keys authorize = n.effective P federationId keys authorize := by
  obtain ⟨hkept, hsignature⟩ := relayed_keeps h
  have hverdict : ∀ jwk, verifyRevocationNotice P n' jwk = verifyRevocationNotice P n jwk :=
    (settles_revocationNotice hV).relayed hcanon h
  simp only [RevocationNotice.effective, hsignature, hkept.federationId, hauthorize, hverdict]

end Notices

/-- A notice does at a node what it did where it was made, whoever passed it on. -/
theorem carried_notice_applies (P : Platform) (V : Scalars) (hV : V.Faithful)
    (hcanon : ∀ a b, a.Same b → P.rfc8785Dumps a = P.rfc8785Dumps b) (node : FederationNode)
    (keys : Dict JWK) (authorize : RevocationNotice → Bool) (n n' : RevocationNotice)
    (hcarried : Carried P V RevocationsResponse.notices n n')
    (hauthorize : authorize n' = authorize n) :
    node.applyRevocationNotice P n' keys authorize = node.applyRevocationNotice P n keys
      authorize := by
  have hrelayed := hcarried.relayed (notices_travel V)
  have heffective := effective_relayed hV hcanon hrelayed hauthorize
  obtain ⟨hkept, -⟩ := relayed_keeps hrelayed
  simp only [FederationNode.applyRevocationNotice, applyMembershipRevocationNotice_eq, heffective,
    hkept.revokedNodeId]

/-- A client that asks a peer for revocations gets the notices the peer listed, each
carried one step further. -/
theorem getRevocations_carries {P : Platform} {V : Scalars} (hV : V.Faithful)
    (hcanon : ∀ a b, a.Same b → P.rfc8785Dumps a = P.rfc8785Dumps b) {key : Ed25519PrivateKey}
    (hkey : key.Ideal P) {keyId : String} {response signed : RevocationsResponse}
    (hsigned : signRevocationsResponse P V response key keyId = .ok signed)
    {payload : List (String × Json)} (hdump : Model.dump signed = .ok payload) {peer : Manifest}
    {url : String} (hurl : peer.membership.revocationsUrl = some url)
    (hlisted : findJwk peer.publicKeys keyId = some (publicJwk key)) {client : SigningClient}
    {since : Option String} {draw : Draw} {out : OutgoingRequest}
    (hprepare : prepareRequest P V client peer.nodeId "GET" url [] (sinceParams since)
      draw = .ok out) :
    ∃ received : RevocationsResponse,
      (client.getRevocations P V peer since).run.Replays
        [⟨.draw, draw⟩, ⟨.http out, .ok { raiseForStatus := .ok (), json := .ok (.obj payload) }⟩]
        (.ok received) ∧
      received.notices.length = response.notices.length ∧
      ∀ (i : Nat) (n n' : RevocationNotice), response.notices[i]? = some n →
        received.notices[i]? = some n' →
        Carried P V RevocationsResponse.notices n n' := by
  obtain ⟨received, hsent⟩ := (settles_revocationsResponse hV).exists_hop hdump
  have hreply := WireType.signedReply_ok (t := .revocationsResponse) hV hcanon hkey hsigned
    hdump hsent hlisted
  have hlength : received.notices.length = response.notices.length :=
    ((notices_travel V).sent hsent).length_eq.symm.trans
      ((notices_travel V).signed hsigned).length_eq.symm
  refine ⟨received, ?_, hlength, fun i n n' hn hn' => .listed (.held n) hsigned hsent hn hn'⟩
  rw [SigningClient.getRevocations, hurl]
  show (client.send P V peer.nodeId "GET" url [] (sinceParams since) >>= fun r =>
    Task.Raising.lift (signedReply P V RevocationsResponse.signature peer r)).run.Replays _ _
  rw [send_run]
  exact oneRequest_replays hprepare rfl hreply

def listedByGamma : RevocationsResponse := { sourceNodeId := "gamma", notices := [alphaNotice] }

theorem alphaNotice_listed :
    ∃ n', Carried signingPlatform strictScalars RevocationsResponse.notices alphaNotice n' := by
  have hdump : Model.dump listedByGamma = .ok _ := rfl
  obtain ⟨signed, received, hsigned, hsent, _⟩ :=
    (settles_revocationsResponse strictScalars_faithful).verifies
    (fun _ _ => dictDumps_congr) (fun _ => dictDumps_safe) alphaSigner_ideal "k1" hdump
    (by decide +kernel)
  have hfirst := ((notices_travel strictScalars).signed hsigned).length_eq
  have hsecond := ((notices_travel strictScalars).sent hsent).length_eq
  have hone : 0 < received.notices.length := by
    rw [← hsecond, ← hfirst]
    decide
  exact ⟨_, .listed (.held alphaNotice) hsigned hsent rfl (List.getElem?_eq_getElem hone)⟩

theorem alphaNotice_applies :
    ∃ n', Carried signingPlatform strictScalars RevocationsResponse.notices alphaNotice n' ∧
    beta.applyRevocationNotice signingPlatform n' alphaKeys selfScopedAuthorize =
      beta.applyRevocationNotice signingPlatform alphaNotice alphaKeys selfScopedAuthorize := by
  obtain ⟨n', hcarried⟩ := alphaNotice_listed
  have hkept := (relayed_keeps (hcarried.relayed (notices_travel strictScalars))).1
  have hauthorize : selfScopedAuthorize n' = selfScopedAuthorize alphaNotice := by
    simp only [selfScopedAuthorize, hkept.issuer, hkept.revokedNodeId]
  exact ⟨n', hcarried, carried_notice_applies signingPlatform strictScalars strictScalars_faithful
    (fun _ _ => dictDumps_congr) beta alphaKeys selfScopedAuthorize alphaNotice n'
    hcarried hauthorize⟩

section Built

variable {P : Platform} {V : Scalars} {key : Ed25519PrivateKey} {keyId : String}
  {n n' : RevocationNotice}

theorem built_valid_iff (hV : V.Faithful)
    (hcanon : ∀ a b, a.Same b → P.rfc8785Dumps a = P.rfc8785Dumps b) (hkey : key.Ideal P)
    {revokedNodeId issuer federationId reason : String} {issuedAt expiresAt : Option DateTime}
    {now : DateTime}
    (hbuilt : buildRevocation P V revokedNodeId issuer federationId key keyId reason issuedAt
      expiresAt now = .ok n) (hcarried : Carried P V RevocationsResponse.notices n n')
    {keys : Dict JWK} (hkeys : keys.lookup keyId = some (publicJwk key))
    {authorize : RevocationNotice → Bool} {federation : String} :
    Valid P federation keys authorize n' ↔ federationId = federation ∧ authorize n' = true := by
  have hrelayed := hcarried.relayed (notices_travel V)
  obtain ⟨hkept, s, hs, hkeyId⟩ := signModel_keeps hbuilt
  obtain ⟨hkept', hsignature⟩ := relayed_keeps hrelayed
  have hverified : verifyRevocationNotice P n' (publicJwk key) = .ok true :=
    (settles_revocationNotice hV).signed hcanon hkey hbuilt hrelayed
  have hfederation : n'.federationId = federationId := hkept'.federationId.trans hkept.federationId
  constructor
  · intro h
    exact ⟨hfederation.symm.trans h.federation, h.authorized⟩
  · rintro ⟨rfl, hauthorized⟩
    exact ⟨hfederation, hauthorized, s, publicJwk key, hsignature.trans hs,
      hkeyId ▸ hkeys, hverified⟩

theorem valid_notice_revokes {node : FederationNode} {keys : Dict JWK}
    {authorize : RevocationNotice → Bool} {s s' : NodeState} {tr : Trace} {state : Option PeerState}
    (hvalid : Valid P node.federationId keys authorize n) (hrecorded : Recorded n.revokedNodeId s)
    (hrun : Task.Runs Does Passes (node.applyRevocationNotice P n keys authorize).run s tr
      (.ok state) s') :
    s'.revoked n.revokedNodeId ∧ Absent node n.revokedNodeId s' := by
  obtain ⟨verdict, now, hverdict, hs'⟩ :=
    applyRevocationNotice_returns narrows_does n keys authorize s _ _ _ hrun state rfl
  obtain ⟨rec, hrec⟩ := hrecorded
  have htrue := (hverdict ⟨rec, hrec⟩).symm.trans (effective_true_iff.mpr hvalid)
  obtain rfl : verdict = true := Except.ok.inj htrue
  have hheed : s.heed node n.revokedNodeId true now =
      (s.file (rec.setState .revoked now)).forget node n.revokedNodeId :=
        by simp [NodeState.heed, hrec]
  rw [hheed] at hs'
  have hsame : rec.nodeId = n.revokedNodeId := Keyed.key_of_get hrec
  constructor
  · have hfiled : (s.file (rec.setState .revoked now)).revoked n.revokedNodeId := by
      rw [NodeState.file, revoked_upsert, MemberRecord.setState_nodeId, if_pos hsame]
      rfl
    exact (revoked_congr hs'.table _).mpr hfiled
  · have habsent := forget_absent node n.revokedNodeId (s.file (rec.setState .revoked now))
    rwa [Absent, hs'.cache, hs'.store]

theorem valid_notice_eval {node : FederationNode} {keys : Dict JWK}
    {authorize : RevocationNotice → Bool} {s : NodeState}
    (hvalid : Valid P node.federationId keys authorize n) (hrecorded : Recorded n.revokedNodeId s)
    (env : Env) : ((node.applyRevocationNotice P n keys authorize).run.eval env.handle s).1 =
    .ok (some .revoked) := by
  obtain ⟨rec, hrec⟩ := hrecorded
  have hget : (MembershipTable.get .revocation n.revokedNodeId).run.eval env.handle s =
      (.ok (some rec), s) := by
    rw [← hrec]
    rfl
  have happly : (applyMembershipRevocationNotice P n node.federationId keys authorize).run.eval
      env.handle s = (.ok (some .revoked),
        s.file (rec.setState .revoked (env.now .revocation s.clock))) := by
    rw [applyMembershipRevocationNotice_eq, Task.eval_run_bind, hget, effective_true_iff.mpr hvalid]
    rfl
  rw [FederationNode.applyRevocationNotice, Task.run_locked, Task.eval_withLock,
    Task.eval_run_bind, happly, Task.andThen_ok, if_pos rfl, Task.eval_run_bind,
      forgetManifest_eval]
  rfl

end Built

/-- A node that revokes itself is trusted no more wherever it has a record and its key is
known, whichever way its notice came. -/
theorem self_revocation_arrives (P : Platform) (V : Scalars) (hV : V.Faithful)
    (hcanon : ∀ a b, a.Same b → P.rfc8785Dumps a = P.rfc8785Dumps b) (key : Ed25519PrivateKey)
    (hkey : key.Ideal P) (node : FederationNode) (keyId nodeId reason : String)
    (expiresAt : Option DateTime) (now : DateTime) (n n' : RevocationNotice)
    (hbuilt : buildSelfRevocation P V nodeId node.federationId key keyId reason
      expiresAt now = .ok n)
    (hcarried : Carried P V RevocationsResponse.notices n n') (keys : Dict JWK)
    (hkeys : keys.lookup keyId = some (publicJwk key)) (s : NodeState)
    (hrecorded : Recorded nodeId s) :
    (∀ env : Env, ((node.applyRevocationNotice P n' keys selfScopedAuthorize).run.eval
        env.handle s).1 = .ok (some .revoked)) ∧
      ∀ tr state s', Task.Runs Does Passes
        (node.applyRevocationNotice P n' keys selfScopedAuthorize).run s tr (.ok state) s' →
          s'.revoked nodeId ∧ Absent node nodeId s' ∧ Unknown P node nodeId s' := by
  have hkept := (signModel_keeps hbuilt).1.trans
    (relayed_keeps (hcarried.relayed (notices_travel V))).1
  have hself : selfScopedAuthorize n' = true := by
    simp [selfScopedAuthorize, hkept.issuer, hkept.revokedNodeId]
  have hvalid : Valid P node.federationId keys selfScopedAuthorize n' :=
    (built_valid_iff hV hcanon hkey hbuilt hcarried hkeys).mpr ⟨rfl, hself⟩
  obtain rfl : n'.revokedNodeId = nodeId := hkept.revokedNodeId
  refine ⟨fun env => valid_notice_eval hvalid hrecorded env, fun tr state s' hrun => ?_⟩
  obtain ⟨hrevoked, habsent⟩ := valid_notice_revokes hvalid hrecorded hrun
  exact ⟨hrevoked, habsent, unknown_of_absent habsent.1⟩

def signerKeys : Dict JWK := Keyed.ofList [("k1", publicJwk alphaSigner)]

theorem alphaDeparture_sent :
    ∃ n n', buildSelfRevocation signingPlatform strictScalars "alpha" beta.federationId alphaSigner
    "k1" "leaving" none newYear2026 = .ok n ∧ overWire strictScalars n = .ok n' := by
  let notice : RevocationNotice :=
    { federationId := beta.federationId, revokedNodeId := "alpha", reason := "leaving",
      issuedAt := newYear2026
      issuer := "alpha" }
  have hdump : Model.dump notice = .ok _ := rfl
  obtain ⟨n, n', hbuilt, hsent, _⟩ := (settles_revocationNotice strictScalars_faithful).verifies
    (fun _ _ => dictDumps_congr) (fun _ => dictDumps_safe) alphaSigner_ideal "k1" hdump
    (by decide +kernel)
  exact ⟨n, n', hbuilt, hsent⟩

theorem alphaDeparture_arrives : ∃ n', ((beta.applyRevocationNotice signingPlatform n' signerKeys
    selfScopedAuthorize).run.eval silentWorld.handle knowingAlpha).1 = .ok (some .revoked) := by
  obtain ⟨n, n', hbuilt, hsent⟩ := alphaDeparture_sent
  have harrives := self_revocation_arrives signingPlatform strictScalars strictScalars_faithful
    (fun _ _ => dictDumps_congr) alphaSigner alphaSigner_ideal beta "k1" "alpha" "leaving" none
    newYear2026 n n' hbuilt (.sent (.held n) hsent) signerKeys rfl knowingAlpha ⟨_, rfl⟩
  exact ⟨n', harrives.1 silentWorld⟩

end Federlet
