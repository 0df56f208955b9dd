import Federlet.Bystanders
import Federlet.HostRequests
import Federlet.Writes

/-! What follows the admission of a peer: its requests are heard from then on. -/

namespace Federlet

open Coop

section Admission

variable {P : Platform} {node : FederationNode} {env : Env} {manifest : Manifest} {skew : Int}

def NodeState.record (node : FederationNode) (now : DateTime) (manifest : Manifest)
    (manifestUrl : String) (s : NodeState) : NodeState :=
  let entry : MemberRecord :=
    { nodeId := manifest.nodeId, orgId := some manifest.orgId, manifestUrl,
      manifestRevision := manifest.revision }
  if s.stateOf manifest.nodeId = some .revoked then s
  else (s.remember node manifest).file (entry.admitRecord none now)

theorem NodeState.record_clock (now : DateTime) (url : String) (s : NodeState) :
    (s.record node now manifest url).clock = s.clock := by
  rw [NodeState.record]
  split <;> rfl

theorem recordPeer_eval (url : String) (s : NodeState) :
    (node.recordPeer .admission manifest url).run.eval env.handle s =
      (.ok (), s.record node (env.now .admission s.clock) manifest url) := by
  have hget : (MembershipTable.get .admission manifest.nodeId).run.eval env.handle s =
    (.ok (s.membershipTable.get manifest.nodeId), s) := rfl
  rw [FederationNode.recordPeer, Task.run_locked, Task.eval_withLock, Task.eval_run_bind, hget,
    Task.andThen_ok, NodeState.record, NodeState.stateOf]
  let entry : MemberRecord :=
    { nodeId := manifest.nodeId, orgId := some manifest.orgId, manifestUrl := url
      manifestRevision := manifest.revision }
  have hfresh : (do
      node.rememberManifest .admission manifest
      let now ← utcNow .admission
      MembershipTable.upsert .admission (entry.admitRecord none now) : Py Unit).run.eval
        env.handle s =
      (.ok (), (s.remember node manifest).file
        (entry.admitRecord none (env.now .admission s.clock))) := by
    rw [Task.eval_run_bind, rememberManifest_eval, Task.andThen_ok]
    rfl
  cases hrec : s.membershipTable.get manifest.nodeId with
  | none => simpa using hfresh
  | some rec =>
    by_cases hrevoked : rec.state = .revoked
    · simp [hrevoked]
    · simpa [hrevoked] using hfresh

theorem admitManifest_state (policy : AdmissionPolicy) (s : NodeState) :
    ((admitManifest P .admission manifest policy skew).run.eval env.handle s).2 = s := by
  have hroutine : Routine Call.outward anyCallback (fun _ _ => False)
      (fun d => d.accepted = true → Admitted P anyCallback policy manifest)
      (admitManifest P .admission manifest policy skew) :=
    (admitManifest_routine .admission manifest policy skew).outward
  have hanswer (c : Call) (u u' : NodeState) (hc : c.outward) (hs : u = s ∧ u' = s) :
      Answered anyCallback c (env.handle c u).1 ∧ (env.handle c u').1 = (env.handle c u).1 ∧
        (env.handle c u).2 = s ∧ (env.handle c u').2 = s := by
    obtain ⟨hu, hu'⟩ := hs
    have hsame : (env.handle c s).2 = s := by
      obtain ⟨o, op⟩ := c
      cases op
      case utcNow | getaddrinfo | httpGet | httpRequest | hostCallback => rfl
      all_goals exact hc.elim
    rw [hu, hu']
    exact ⟨answered_of_outward hc _, rfl, hsame, hsame⟩
  have hrel := Task.Composed.eval_rel (I := fun u u' => u = s ∧ u' = s) hanswer
    (fun _ _ _ _ hf => hf.elim) hroutine ⟨rfl, rfl⟩
  exact hrel.2.2.1

theorem admitPeer_eval (url : Option String) (s : NodeState) :
    (node.admitPeer P manifest url skew).run.eval env.handle s =
      match ((admitManifest P .admission manifest node.admissionPolicy skew).run.eval
        env.handle s).1 with
      | .error e => (.error e, s)
      | .ok decision => (.ok decision, if decision.accepted then
          (FederationNode.resolvedUrl url manifest).elim s
            (s.record node (env.now .admission s.clock) manifest)
        else s) := by
  have hstate :
      ((admitManifest P .admission manifest node.admissionPolicy skew).run.eval env.handle s).2 =
        s :=
    admitManifest_state node.admissionPolicy s
  rw [FederationNode.admitPeer, Task.eval_run_bind]
  cases hverdict : (admitManifest P .admission manifest node.admissionPolicy skew).run.eval
    env.handle s with
  | mk verdict s₁ =>
    rw [hverdict] at hstate
    obtain rfl : s₁ = s := hstate
    cases verdict with
    | error e => rfl
    | ok decision =>
      dsimp only [Task.andThen_ok]
      cases haccepted : decision.accepted with
      | false =>
        simp only [Bool.false_eq_true, ↓reduceIte]
        rfl
      | true =>
        cases hurl : FederationNode.resolvedUrl url manifest with
        | none => rfl
        | some url' =>
          simp only [↓reduceIte, Option.elim_some]
          rw [Task.eval_run_bind, recordPeer_eval, Task.andThen_ok]
          rfl

/-- The admission puts the manifest on record. -/
def Opens (manifest : Manifest) (url : Option String) (s : NodeState)
    (decision : AdmissionDecision) : Prop :=
  decision.accepted = true ∧ FederationNode.resolvedUrl url manifest ≠ none ∧
    ¬ s.revoked manifest.nodeId

theorem admitPeer_cache {url : Option String} {s : NodeState} {decision : AdmissionDecision}
    (h : ((node.admitPeer P manifest url skew).run.eval env.handle s).1 = .ok decision) :
    (Opens manifest url s decision →
      ((node.admitPeer P manifest url skew).run.eval env.handle s).2.peerManifests.get
        manifest.nodeId = some manifest) ∧
    (¬ Opens manifest url s decision →
      ((node.admitPeer P manifest url skew).run.eval env.handle s).2 = s) := by
  rw [admitPeer_eval] at h ⊢
  cases hverdict :
    ((admitManifest P .admission manifest node.admissionPolicy skew).run.eval env.handle s).1 with
  | error e =>
    rw [hverdict] at h
    cases h
  | ok verdict =>
  rw [hverdict] at h
  obtain rfl : verdict = decision := Except.ok.inj h
  dsimp only
  constructor
  · rintro ⟨haccepted, hurl, hfree⟩
    obtain ⟨url', hurl⟩ := Option.ne_none_iff_exists'.mp hurl
    have hrevoked : ¬ s.stateOf manifest.nodeId = some .revoked := hfree
    rw [if_pos haccepted, hurl, Option.elim_some, NodeState.record, if_neg hrevoked]
    exact Keyed.get_upsert_self _ manifest
  · intro hclosed
    by_cases haccepted : verdict.accepted = true
    · rw [if_pos haccepted]
      cases hurl : FederationNode.resolvedUrl url manifest with
      | none => rfl
      | some url' =>
        have hrevoked : s.stateOf manifest.nodeId = some .revoked := by
          by_contra hfree
          exact hclosed ⟨haccepted, by simp [hurl], hfree⟩
        rw [Option.elim_some, NodeState.record, if_pos hrevoked]
    · rw [if_neg haccepted]

end Admission

/-- Once an unknown peer has been admitted, what its client signs and sends is heard
exactly if the admission was recorded, the request is the one that was signed, in time,
and its nonce is still free. -/
theorem admitted_peer_heard (P : Platform) (V : Scalars) (hV : V.Faithful)
    (hcanon : ∀ a b, a.Same b → P.rfc8785Dumps a = P.rfc8785Dumps b)
    (hsha : Function.Injective P.sha256Hexdigest) (client : SigningClient)
    (hkey : client.key.Ideal P) (targetNodeId method url : String) (body : Bytes)
    (params : List (String × String)) (draw : Draw) (out : OutgoingRequest)
    (received : SignedRequest)
    (hsend : prepareRequest P V client targetNodeId method url body params draw = .ok out)
    (hwire : overWire V out.envelope = .ok received) (header : String) (hheader : header ≠ "")
    (hparse : P.parseSignedRequest header = some received) (manifest : Manifest)
    (hsource : manifest.nodeId = client.nodeId)
    (hlisted : findJwk manifest.publicKeys client.keyId = some (publicJwk client.key))
    (node : FederationNode) (manifestUrl : Option String) (skew : Int) (env : Env) (s : NodeState)
    (decision : AdmissionDecision) (hunknown : s.peerManifests.get manifest.nodeId = none)
    (hdecided : ((node.admitPeer P manifest manifestUrl skew).run.eval env.handle s).1 =
      .ok decision) (s' : NodeState) (hkept : s'.peerManifests.get manifest.nodeId =
      ((node.admitPeer P manifest manifestUrl skew).run.eval env.handle s).2.peerManifests.get
        manifest.nodeId) :
    ∃ parsed, urlparse P url = .ok parsed ∧ ∀ (req : Inbound) (world : Env),
      req.selfNodeId = node.nodeId → req.cache = node.nonceCache →
      let hears := Opens manifest manifestUrl s decision ∧
        AsSigned P targetNodeId method (String.ofList parsed.path) body draw.now req
          (world.now .inbound s'.clock) ∧
        (req.cache = true → (s'.nonceSet (nonceCacheKey received) req.maxSkewSeconds).1 = true)
      let r :=
        ((node.verifyKnownInbound P (some header) client.nodeId req.method req.path req.body
          req.maxBodyBytes
        req.maxSkewSeconds).run.eval world.handle s').1
      (hears → r = .ok ⟨client.nodeId, client.keyId, client.manifestRevision, draw.requestId⟩) ∧
        (¬ hears → ∃ reason, r = .error (.unauthorizedPeerRequest reason)) := by
  obtain ⟨parsed, data, hparsed, hreceived⟩ := prepareRequest_arrives hV hsend hwire
  refine ⟨parsed, hparsed, fun req world hself hcache => ?_⟩
  have hlookup : (PeerManifests.get .inbound client.nodeId).run.eval world.handle s' =
      (.ok (s'.peerManifests.get client.nodeId), s') := rfl
  obtain ⟨hopen, hclosed⟩ := admitPeer_cache hdecided
  by_cases hopens : Opens manifest manifestUrl s decision
  · have hcached : s'.peerManifests.get client.nodeId = some manifest := by
      rw [← hsource, hkept, hopen hopens]
    have hreq :
        ({ selfNodeId := node.nodeId, method := req.method, path := req.path, body := req.body
           maxBodyBytes := req.maxBodyBytes, maxSkewSeconds := req.maxSkewSeconds
           cache := node.nonceCache } : Inbound) = req := by rw [← hself, ← hcache]
    dsimp only
    rw [FederationNode.verifyKnownInbound, Task.eval_run_bind, hlookup, Task.andThen_ok, hcached]
    simp only [FederationNode.verifyInbound, hreq, hopens, true_and]
    exact verifyPeerRequest_honest hV hcanon hsha hkey hsend hwire hheader hparse hsource hlisted
      hreceived req world s'
  · have habsent : s'.peerManifests.get client.nodeId = none := by
      rw [← hsource, hkept, hclosed hopens, hunknown]
    dsimp only
    rw [unknown_of_absent habsent world]
    simp [hopens]

theorem checkEndpoint_parse (P : Platform) (parse : String → Option SignedRequest)
    (endpoint : String) (policy : AdmissionPolicy) :
    checkEndpoint { P with parseSignedRequest := parse } endpoint policy = checkEndpoint P
      endpoint policy := rfl

theorem alphaEndpoint_passes :
    checkEndpoint publishingPlatform "https://alpha.example" beta.admissionPolicy = .ok none := by
  let split : SplitResult := ⟨"https".toList, "alpha.example".toList⟩
  have hsplit : urlsplit publishingPlatform "https://alpha.example" = .ok split := rfl
  have hhost : rstripDots (publishingPlatform.lower (split.hostname publishingPlatform)) =
      "alpha.example" := by
    decide +kernel
  have hip (host : String) : publishingPlatform.ipAddress host = none := rfl
  simp only [checkEndpoint, hsplit, hhost, hip, bind, Except.bind]
  rfl

theorem alphaPublication_suits {built : Manifest}
    (h : Published publishingPlatform strictScalars alphaSigner "k1" alphaPublication
      newYear2026 built)
    (received : SignedRequest) :
    Suits (hostPlatform received) (fun _ _ => .error .valueError) beta.admissionPolicy built := by
  obtain ⟨unsigned, hunsigned, hkept, _⟩ := h.kept strictScalars_faithful
  obtain rfl := Except.ok.inj hunsigned
  refine ⟨?_, fun method _ verifier hverifier => ?_, ?_, fun verifier hverifier => ?_⟩
  · rw [policyReason, hkept.expiresAt, hkept.federations, hkept.protocolVersions, hkept.authMethods]
    decide
  · cases hverifier
  · have hbase : alphaPublication.base = "https://alpha.example" := by decide
    rw [hkept.endpoint, hostPlatform, checkEndpoint_parse, hbase, alphaEndpoint_passes]
  · cases hverifier

theorem alphaPublication_inForce {built : Manifest}
    (h : Published publishingPlatform strictScalars alphaSigner "k1" alphaPublication
      newYear2026 built) :
    WithinCalendar built.issuedAt built.expiresAt newYear2026 300 ∧
      timeVerdict built.issuedAt built.expiresAt newYear2026 300 = (true, "ok") := by
  obtain ⟨unsigned, hunsigned, hkept, _⟩ := h.kept strictScalars_faithful
  have hissued : unsigned.issuedAt = some newYear2026 := by
    obtain rfl := Except.ok.inj hunsigned
    decide
  have hexpires : unsigned.expiresAt = some weekLater := by
    obtain rfl := Except.ok.inj hunsigned
    decide
  rw [hkept.issuedAt, hkept.expiresAt, hissued, hexpires]
  exact ⟨⟨by decide, by simp; decide, by simp; decide⟩, by decide⟩

theorem alpha_admitted_heard : ∃ received manifest s,
    ((beta.admitPeer (hostPlatform received) manifest
      (some "https://alpha.example/manifest") 300).run.eval
    (hostWorld fun _ _ => .error .valueError).handle emptyNode).2 = s ∧
    ((beta.verifyKnownInbound (hostPlatform received) (some "envelope") "alpha" "GET"
      hostMembersUrl.requestPath [] none
      300).run.eval silentWorld.handle s).1 = .ok ⟨"alpha", "k1", 3, "r-1"⟩ := by
  obtain ⟨built, fields, hbuilt, hfields⟩ :=
    alphaPublication_built alphaSigner "k1" alphaSigner_publishes
  obtain ⟨out, received, hdelivered⟩ := alpha_delivered hostMembersUrl rfl "GET" []
  obtain ⟨hbounds, htime⟩ := alphaPublication_inForce hbuilt
  have hparsed : Published (hostPlatform received) strictScalars alphaSigner "k1" alphaPublication
      newYear2026 built :=
    hbuilt.parse _
  have hcheck := hparsed.judged strictScalars_faithful (fun _ _ => dictDumps_congr)
    (alphaSigner_host received) (by decide) hbounds
  have hadmits : WouldAdmit (hostPlatform received) (fun _ _ => .error .valueError)
      beta.admissionPolicy built emptyNode :=
    wouldAdmit_iff.mpr ⟨⟨"ok", hcheck.trans (congrArg Except.ok htime)⟩,
      alphaPublication_suits hbuilt received⟩
  obtain ⟨decision, hdecision, haccepted⟩ := hadmits
  obtain ⟨unsigned, hunsigned, hkept, _⟩ := hbuilt.kept strictScalars_faithful
  obtain ⟨hnode, _, _, _, hkeys⟩ := Publication.manifest_ok hunsigned
  have hnodeId : built.nodeId = "alpha" := hkept.nodeId.trans hnode
  have hlisted : findJwk built.publicKeys "k1" = some (publicJwk alphaSigner) := by
    rw [hkept.publicKeys, hkeys]
    rfl
  have hdecided :
      ((beta.admitPeer (hostPlatform received) built
        (some "https://alpha.example/manifest") 300).run.eval
      (hostWorld fun _ _ => .error .valueError).handle emptyNode).1 = .ok decision := by
    rw [admitPeer_eval, hdecision]
  obtain ⟨parsed, hurl, hheard⟩ := admitted_peer_heard (hostPlatform received) strictScalars
    strictScalars_faithful (fun _ _ => dictDumps_congr)
    (exchange_sha256_injective getMembersRequest) alphaClient (alphaSigner_host received) "beta"
    "GET" hostMembersUrl.text [] [] alphaDraw out received hdelivered.sent hdelivered.wire
    "envelope" hdelivered.present hdelivered.parse built hnodeId hlisted beta
    (some "https://alpha.example/manifest") 300 (hostWorld fun _ _ => .error .valueError) emptyNode
    decision rfl hdecided _ rfl
  have hpath : String.ofList parsed.path = hostMembersUrl.requestPath :=
    (HttpUrl.path_eq_iff hurl).mpr
      ⟨by simp [hostMembersUrl, hostUrl], by simp [hostMembersUrl, hostUrl, afterLast]⟩
  have hurl' : FederationNode.resolvedUrl (some "https://alpha.example/manifest") built =
    some "https://alpha.example/manifest" := rfl
  have hfree : ¬ emptyNode.revoked built.nodeId := by
    rw [hnodeId]
    decide
  have hopens : Opens built (some "https://alpha.example/manifest") emptyNode decision :=
    ⟨haccepted, by simp [hurl'], hfree⟩
  have hclock :
      ((beta.admitPeer (hostPlatform received) built
        (some "https://alpha.example/manifest") 300).run.eval
      (hostWorld fun _ _ => .error .valueError).handle emptyNode).2.clock = newYear2026 := by
    rw [admitPeer_eval, hdecision, hurl']
    simp only [haccepted, ↓reduceIte, Option.elim_some]
    exact NodeState.record_clock _ _ emptyNode
  refine ⟨received, built, _, rfl,
    (hheard { selfNodeId := "beta", method := "GET", path := hostMembersUrl.requestPath }
    silentWorld rfl rfl).1 ⟨hopens, ⟨rfl, rfl, hpath.symm, rfl, rfl, ?_⟩, fun hcache => ?_⟩⟩
  · rw [hclock]
    exact (DateTime.abs_totalSeconds_le_iff (s := 300) (by decide)).mpr (by decide)
  · cases hcache

end Federlet
