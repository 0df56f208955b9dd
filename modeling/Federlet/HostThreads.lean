import Federlet.HostRequests
import Federlet.Library.Threads

/-! The threads of a host. Whatever order their calls come in, nobody is trusted who was
neither trusted before nor introduced by itself, and a request that is handled after
another with its nonce is refused. -/

namespace Federlet

open Coop

def HostState.sem (op : HostOp) (s : HostState) (r : op.Resp) (s' : HostState) :
    Prop := (r, s') = s.handle op

/-- What happens besides the requests: time goes on, and the operator trusts peers. -/
inductive HostState.Aside (operator : Manifest → Prop) : HostState → HostState → Prop where
  | tick (s : HostState) (clock : DateTime) : Aside operator s { s with clock }
  | trust (s : HostState) (peer : Manifest) (h : operator peer) :
      Aside operator s { s with trustedPeers := s.trustedPeers.upsert peer }

section Trust

variable {P : Platform} {V : Scalars} {decode : Bytes → Option Json} {node : ExampleNode}

def Signed (P : Platform) (header : Option String) (manifest : Manifest) (req : Inbound) : Prop :=
  ∃ env signature jwk now, selectSigner P header manifest = .ok (env, signature, jwk) ∧
    EnvelopeFits P env req now ∧
    verifyModel P env jwk = .ok true

/-- The request introduces the manifest: it carries it, and both are signed with keys that
the manifest lists. -/
structure Introduced (P : Platform) (V : Scalars) (decode : Bytes → Option Json)
    (node : ExampleNode) (request : HttpRequest) (manifest : Manifest) : Prop where
  method : request.method = .post
  path : request.path = "/federation/v1/members/introduce"
  body : ∃ intro : IntroduceRequest, (decode request.body).bind (Validated.read V) = some intro ∧
    intro.manifest = manifest
  inForce : ∃ now reason, checkManifestAt P manifest now 300 = .ok (true, reason)
  selfSigned : ∃ signature jwk, manifest.signature = some signature ∧
    findJwk manifest.publicKeys signature.keyId = some jwk ∧ verifyModel P manifest jwk = .ok true
  sealed : Signed P request.signatureHeader manifest (node.inbound "POST" request.path request.body)

/-- The calls a thread makes for a request; it trusts only whom the request introduces. -/
def HostCalls (P : Platform) (V : Scalars) (decode : Bytes → Option Json) (node : ExampleNode)
    (request : HttpRequest) :
    HostOp → Prop
  | .trustedPut peer => Introduced P V decode node request peer
  | _ => True

abbrev HostComposed (calls : HostOp → Prop) {α : Type} (Q : α → Prop) (t : HostTask α) : Prop :=
  t.Composed calls (fun _ _ => True) (fun _ _ => False) Q

theorem hosted_composed {calls : HostOp → Prop}
    (hcalls : ∀ op, (∀ peer, op ≠ .trustedPut peer) → calls op) (call : Call) :
    HostComposed calls (fun _ => True) (hosted call) := by
  have hlibrary : HostComposed calls (fun _ => True)
      (.call (.library call) fun r => .done r : HostTask (Resp call)) := 
    .call (hcalls _ (by simp)) fun _ _ => .done trivial
  obtain ⟨o, op⟩ := call
  cases op
  case nonceSet key expire =>
    refine .call (hcalls _ (by simp)) fun seen _ => ?_
    cases seen with
    | true => exact .done trivial
    | false => exact .call (hcalls _ (by simp)) fun _ _ => .done trivial
  all_goals exact hlibrary

variable {calls : HostOp → Prop} (hcalls : ∀ op, (∀ peer, op ≠ .trustedPut peer) → calls op)

include hcalls

theorem checkManifest_composed (o : Origin) (manifest : Manifest) (skew : Int) :
    HostComposed calls (fun r => ∃ now, r = checkManifestAt P manifest now skew)
      (inHost (checkManifest P o manifest skew)).run :=
  .call (hcalls _ (by simp)) fun now _ => .done ⟨now, rfl⟩

theorem verifyPeerRequest_composed (header : Option String) (manifest : Manifest) (req : Inbound) :
    HostComposed calls (fun r => (∃ peer, r = .ok peer) → Signed P header manifest req)
      (inHost (verifyPeerRequest P header manifest req)).run := by
  show HostComposed calls _ ((verifyPeerRequest P header manifest req).run.through hosted)
  cases hsel : selectSigner P header manifest with
  | error e =>
    rw [verifyPeerRequest_run_of_error hsel]
    exact .done fun ⟨_, h⟩ => by cases h
  | ok selected =>
    obtain ⟨env, signature, jwk⟩ := selected
    rw [verifyPeerRequest_run_of_signer hsel, verifySignedRequest_run, Task.call_bind,
      Task.through_call]
    refine (hosted_composed hcalls _).bind fun now _ => ?_
    cases hcheck : checkSignedRequestAt P env jwk req now with
    | error e => exact .done fun ⟨_, h⟩ => by cases h
    | ok verdict =>
      obtain ⟨ok, reason⟩ := verdict
      cases ok with
      | false => exact .done fun ⟨_, h⟩ => by cases h
      | true =>
        obtain ⟨_, hfits, hverified⟩ := checkSignedRequestAt_true_iff.mp hcheck
        have hsigned : Signed P header manifest req :=
          ⟨env, signature, jwk, now, hsel, envelopeReason_none_iff.mp hfits, hverified⟩
        simp only [claimNonce]
        split_ifs
        · rw [Task.call_bind, Task.through_call]
          exact (hosted_composed hcalls _).bind fun _ _ => .done fun _ => hsigned
        · exact .done fun _ => hsigned

end Trust

section Trust

variable {P : Platform} {V : Scalars} {decode : Bytes → Option Json} {node : ExampleNode}

theorem answer_composed {calls : HostOp → Prop} {M : Type} [Model M] (signed : Except Exc M) :
    HostComposed calls (fun _ => True) ((do
      let response ← Task.Raising.lift signed
      let payload ← Task.Raising.lift (Model.dump response)
      return (200, payload) : HostPy HttpAnswer)).run := by
  cases signed with
  | error e => exact .done trivial
  | ok response =>
    rw [Task.run_bind, Task.run_lift, Task.done_bind, Task.andThen_ok, Task.run_bind, Task.run_lift,
      Task.done_bind]
    cases Model.dump response <;> exact .done trivial

theorem signedMembersResponse_composed {calls : HostOp → Prop} (hvalues : calls .trustedValues) :
    HostComposed calls (fun _ => True) (node.signedMembersResponse P V).run := by
  rw [ExampleNode.signedMembersResponse]
  cases node.manifest with
  | none => exact .done trivial
  | some manifest =>
    refine .call hvalues fun peers _ => ?_
    show HostComposed calls _
      (Task.Raising.lift _ >>= fun response => Task.Raising.lift (Model.dump response)).run
    rw [Task.run_bind, Task.run_lift, Task.done_bind]
    cases signMembersResponse P V _ node.key node.keyId <;> exact .done trivial

theorem authenticateKnownPeer_composed {calls : HostOp → Prop}
    (hcalls : ∀ op, (∀ peer, op ≠ .trustedPut peer) → calls op) (header : Option String)
    (method path : String) (body : Bytes) :
    HostComposed calls (fun _ => True) (node.authenticateKnownPeer P header method path body).run :=
  by
  rw [ExampleNode.authenticateKnownPeer]
  cases header.filter (· ≠ "") with
  | none => exact .done trivial
  | some text =>
  dsimp only
  cases P.parseSignedRequest text with
  | none => exact .done trivial
  | some envelope =>
    refine .call (hcalls _ (by simp)) fun known _ => ?_
    cases known with
    | none => exact .done trivial
    | some peer =>
      refine Task.composed_run_bind
        (Task.composed_attempt (verifyPeerRequest_composed hcalls _ _ _)) ?_ fun _ _ => trivial
      rintro (e | verified) _
      · cases e
        all_goals exact .done trivial
      · exact .done trivial

theorem handleIntroduce_composed {request : HttpRequest} (hmethod : request.method = .post)
    (hpath : request.path = "/federation/v1/members/introduce") :
    HostComposed (HostCalls P V decode node request) (fun _ => True)
      (node.handleIntroduce P V decode request.body request.signatureHeader).run := by
  have hcalls : ∀ op, (∀ peer, op ≠ .trustedPut peer) → HostCalls P V decode node request op := by
    intro op hop
    cases op with
    | trustedPut peer => exact absurd rfl (hop peer)
    | _ => trivial
  rw [ExampleNode.handleIntroduce]
  cases hbody : (decode request.body).bind (Validated.read V : Reader IntroduceRequest) with
  | none => exact .done trivial
  | some intro =>
  dsimp only
  refine Task.composed_run_bind (checkManifest_composed hcalls .inbound intro.manifest 300) ?_
    fun _ _ => trivial
  rintro ⟨ok, reason⟩ ⟨now, hmanifest⟩
  cases ok with
  | false => exact .done trivial
  | true =>
    have hinForce := hmanifest.symm
    refine Task.composed_run_bind (Task.composed_attempt (verifyPeerRequest_composed hcalls _ _ _))
      ?_ fun _ _ => trivial
    rintro r ⟨x, hx, hsigned⟩
    obtain rfl := Except.ok.inj hx
    cases r with
    | error e =>
      cases e
      all_goals exact .done trivial
    | ok peer =>
      have hintroduced : Introduced P V decode node request intro.manifest :=
        ⟨hmethod, hpath, ⟨intro, hbody, rfl⟩, ⟨now, reason, hinForce⟩,
          signed_of_checkManifestAt hinForce, hpath ▸ hsigned ⟨peer, rfl⟩⟩
      refine .call hintroduced fun _ _ => .call trivial fun peers _ => ?_
      exact answer_composed _

theorem serve_composed (request : HttpRequest) :
    HostComposed (HostCalls P V decode node request) (fun _ => True)
      (node.serve P V decode request).run := by
  have hcalls : ∀ op, (∀ peer, op ≠ .trustedPut peer) → HostCalls P V decode node request op := by
    intro op hop
    cases op with
    | trustedPut peer => exact absurd rfl (hop peer)
    | _ => trivial
  obtain ⟨method, path, header, body⟩ := request
  rw [ExampleNode.serve]
  cases method with
  | get =>
    cases node.manifest with
    | none => exact .done trivial
    | some manifest =>
      dsimp only
      split_ifs with hmanifest hmembers
      · exact (answer_composed (.ok manifest))
      · refine Task.composed_run_bind (authenticateKnownPeer_composed hcalls _ _ _ _) ?_
          fun _ _ => trivial
        rintro ⟨ok, reason⟩ _
        cases ok with
        | false => exact .done trivial
        | true =>
          refine Task.composed_run_bind (signedMembersResponse_composed (hcalls _ (by simp))) ?_
            fun _ _ => trivial
          exact fun _ _ => .done trivial
      · exact .done trivial
  | post =>
    dsimp only
    split_ifs with hpath
    · exact handleIntroduce_composed rfl hpath
    · exact .done trivial

end Trust

theorem served_in_turn (P : Platform) (V : Scalars) (decode : Bytes → Option Json)
    (node : ExampleNode) (operator : Manifest → Prop) (first later : HttpRequest) (s : HostState) :
    let one := (node.serve P V decode first).run.eval HostState.handle s
    let two := (node.serve P V decode later).run.eval HostState.handle one.2
    ∃ tr, Before 0 1 tr ∧ Gathers HostState.sem (HostState.Aside operator)
      ([first, later].map fun r => (node.serve P V decode r).run) s tr [one.1, two.1] two.2 := by
  have hsem (op : HostOp) (u : HostState) :
      HostState.sem op u (u.handle op).1 (u.handle op).2 := rfl
  intro one two
  have hend : Gathers HostState.sem (HostState.Aside operator) [.done one.1, .done two.1] two.2 []
      [one.1, two.1] two.2 :=
    Gathers.done [one.1, two.1] two.2
  have hlater := Gathers.first hsem [.done one.1, (node.serve P V decode later).run] 1
    (serve_composed later) rfl hend
  have hfirst := Gathers.first hsem
    [(node.serve P V decode first).run, (node.serve P V decode later).run] 0
    (serve_composed first) rfl hlater
  exact ⟨_, ⟨_, _, rfl, by simp, by simp⟩, hfirst⟩

/-- Whatever requests are served side by side, whoever is trusted in the end was trusted
before, was trusted by the operator, or introduced itself. -/
theorem trusted_peers_introduced (P : Platform) (V : Scalars) (decode : Bytes → Option Json)
    (node : ExampleNode) (operator : Manifest → Prop) (requests : List HttpRequest)
    (s s' : HostState) (tr : List (Nat × Event HostOp HostOp.Resp HostState))
    (answers : List (Except Exc HttpAnswer))
    (hrun : Gathers HostState.sem (HostState.Aside operator)
      (requests.map fun r => (node.serve P V decode r).run) s tr answers s') :
    ∀ peer ∈ s'.trustedPeers.entries, peer ∈ s.trustedPeers.entries ∨ operator peer ∨
      ∃ request ∈ requests, Introduced P V decode node request peer := by
  let justified (peer : Manifest) : Prop := peer ∈ s.trustedPeers.entries ∨ operator peer ∨
    ∃ request ∈ requests, Introduced P V decode node request peer
  let sound (u : HostState) : Prop := ∀ peer ∈ u.trustedPeers.entries, justified peer
  have hput (u : HostState) (hu : sound u) {peer : Manifest} (hpeer : justified peer) :
      ∀ p ∈ (u.trustedPeers.upsert peer).entries, justified p := by
    intro p hp
    rcases Keyed.mem_stored.mp hp with rfl | ⟨hp, _⟩
    · exact hpeer
    · exact hu p hp
  have hcalls := hrun.calls
      (fun t op => ∃ request ∈ requests, t = (node.serve P V decode request).run ∧
      HostCalls P V decode node request op) (by
    intro t ht
    obtain ⟨request, hrequest, rfl⟩ := List.mem_map.mp ht
    exact ⟨_, (serve_composed request).widen fun op hop => ⟨request, hrequest, rfl, hop⟩⟩)
  refine (hrun.invariant (I := sound) ?_ ?_ fun peer hpeer => .inl hpeer).1
  · intro u u' hu haside
    cases haside with
    | tick clock => exact hu
    | trust peer hpeer => exact hput u hu (.inr (.inl hpeer))
  · rintro ⟨i, u, op, r, u'⟩ hx hsem hu
    obtain ⟨_, _, request, hrequest, _, hop⟩ := hcalls _ hx
    have hpost : u' = (u.handle op).2 := (Prod.mk.inj hsem).2
    subst hpost
    cases op with
    | trustedPut peer => exact hput u hu (.inr (.inr ⟨request, hrequest, hop⟩))
    | _ => exact hu

/-- `alpha` introduces itself to `beta`, which has met nobody yet, after a request for
a page there is not. -/
theorem alpha_trusted_by_introduction : ∃ received decode body manifest s',
    (∃ tr answers, Gathers HostState.sem (HostState.Aside fun _ => False)
      ([{ method := .post, path := "/nowhere" },
          { method := .post, path := hostIntroduceUrl.requestPath,
            signatureHeader := some "envelope", body }].map fun r =>
        (betaHost.serve (hostPlatform received) strictScalars decode r).run) lonelyState
          tr answers s') ∧
    manifest ∈ s'.trustedPeers.entries ∧
    ∃ request ∈ [{ method := .post, path := "/nowhere" },
        { method := .post, path := hostIntroduceUrl.requestPath,
          signatureHeader := some "envelope", body }],
      Introduced (hostPlatform received) strictScalars decode betaHost request manifest := by
  obtain ⟨built, body, out, received, hbuilt, hdump, hdelivered, hbounds, hdates⟩ :=
    alpha_introduction
  have hpublished : Published (hostPlatform received) strictScalars alphaClient.key
      alphaClient.keyId alphaPublication newYear2026 (introductionOf built).manifest :=
        hbuilt.parse _
  have hid : alphaPublication.nodeId = alphaClient.nodeId := rfl
  have hrevision : Json.safeInt alphaPublication.revision = true := by decide
  have hjson : introDecode (.obj body) (introEncode (.obj body)) = some (.obj body) := if_pos rfl
  have hunseen : nonceCacheKey received ∉ lonelyState.seen := by simp [lonelyState]
  have hsigner : alphaClient.key.Ideal (hostPlatform received) := alphaSigner_host received
  have hfresh : ((lonelyState.clock.diffMicros alphaDraw.now.toSecond).natAbs : Int) ≤ 300 *
      1000000 := by decide
  obtain ⟨manifest, _, _, _, _, _, _, _, _, _, hserved⟩ := serve_introduce_hosted
    (P := hostPlatform received) strictScalars_faithful (fun _ _ => dictDumps_congr)
    (fun _ => dictDumps_safe) (exchange_sha256_injective getMembersRequest) hsigner
    (spareSigner_host received) betaHost_describes rfl hid hrevision hpublished hdump hjson
    hdelivered (s := lonelyState) hbounds hdates hfresh hunseen (by decide)
  obtain ⟨tr, _, hrun⟩ := served_in_turn (hostPlatform received) strictScalars
    (introDecode (.obj body)) betaHost (fun _ => False) { method := .post, path := "/nowhere" }
    { method := .post, path := hostIntroduceUrl.requestPath, signatureHeader := some "envelope"
      body := introEncode (.obj body) } lonelyState
  have hmissing : ((betaHost.serve (hostPlatform received) strictScalars (introDecode (.obj body))
      { method := .post, path := "/nowhere" }).run.eval HostState.handle lonelyState).2 =
    lonelyState := rfl
  rw [hmissing, hserved] at hrun
  have hmem : manifest ∈ (lonelyState.trustedPeers.upsert manifest).entries :=
    Keyed.mem_of_get (Keyed.get_upsert_self lonelyState.trustedPeers manifest)
  rcases trusted_peers_introduced (hostPlatform received) strictScalars (introDecode (.obj body))
    betaHost (fun _ => False) _ lonelyState _ tr _ hrun manifest
    hmem with hknown | hoperator | hintroduced
  · cases hknown
  · exact hoperator.elim
  · exact ⟨received, _, _, manifest, _, ⟨tr, _, hrun⟩, hmem, hintroduced⟩

structure Claims (key : String) (tr : List (Event HostOp HostOp.Resp HostState)) : Prop where
  tested : ∃ ev ∈ tr, ev.answer = ⟨.nonceSeen key, false⟩
  added : ∃ ev ∈ tr, ev.eff = .nonceAdd key

theorem Claims.append {key : String} {tr : List (Event HostOp HostOp.Resp HostState)}
    (h : Claims key tr) (before later : List (Event HostOp HostOp.Resp HostState)) :
    Claims key (before ++ (tr ++ later)) := by
  obtain ⟨⟨ev, hev, hanswer⟩, ⟨ev', hev', heff⟩⟩ := h
  exact ⟨⟨ev, by simp [hev], hanswer⟩, ⟨ev', by simp [hev'], heff⟩⟩

section Replay

variable {P : Platform} {V : Scalars} {decode : Bytes → Option Json} {node : ExampleNode}
  {background : HostState → HostState → Prop} {s : HostState}

theorem verifyPeerRequest_claims {header : String} {env : SignedRequest}
    (hparse : P.parseSignedRequest header = some env) (manifest : Manifest) {req : Inbound}
    (hcache : req.cache = true) :
    Task.Returns HostState.sem background (inHost (verifyPeerRequest P (some header) manifest req))
      s fun tr _ _ =>
      Claims (nonceCacheKey env) tr := by
  show Task.Yields _ _ ((verifyPeerRequest P (some header) manifest req).run.through hosted) _ _
  cases hsel : selectSigner P (some header) manifest with
  | error e =>
    rw [verifyPeerRequest_run_of_error hsel]
    exact Task.Yields.done fun _ h => by cases h
  | ok selected =>
    obtain ⟨env', signature, jwk⟩ := selected
    obtain ⟨header', hheader, _, hparse', _⟩ := selectSigner_ok_iff.mp hsel
    obtain rfl := Option.some.inj hheader
    obtain rfl := Option.some.inj (hparse.symm.trans hparse')
    rw [verifyPeerRequest_run_of_signer hsel, verifySignedRequest_run, Task.call_bind,
      Task.through_call]
    refine Task.Yields.call fun s₁ _ now s₂ _ => ?_
    rw [Task.done_bind]
    cases hcheck : checkSignedRequestAt P env jwk req now with
    | error e => exact Task.Yields.done fun _ h => by cases h
    | ok verdict =>
      obtain ⟨ok, reason⟩ := verdict
      cases ok with
      | false => exact Task.Yields.done fun _ h => by cases h
      | true =>
        simp only [claimNonce, hcache, ↓reduceIte]
        refine Task.Yields.call fun s₃ _ seen s₄ _ => ?_
        cases seen with
        | true => exact Task.Yields.done fun _ h => by cases h
        | false =>
          refine Task.Yields.call fun s₅ _ _ s₆ _ => Task.Yields.done fun _ _ => ?_
          exact ⟨⟨⟨s₃, .nonceSeen (nonceCacheKey env), false, s₄⟩, by simp, rfl⟩,
            ⟨⟨s₅, .nonceAdd (nonceCacheKey env), (), s₆⟩, by simp, rfl⟩⟩

theorem authenticateKnownPeer_claims {header : String} {env : SignedRequest}
    (hparse : P.parseSignedRequest header = some env) (method path : String) (body : Bytes) :
    Task.Returns HostState.sem background
      (node.authenticateKnownPeer P (some header) method path body) s fun tr r _ =>
      r.1 = true → Claims (nonceCacheKey env) tr := by
  rw [ExampleNode.authenticateKnownPeer]
  by_cases hheader : header = ""
  · have hfilter : (some header).filter (· ≠ "") = none := by simp [hheader]
    rw [hfilter]
    exact Task.Returns.pure fun h => by cases h
  have hfilter : (some header).filter (· ≠ "") = some header := by simp [hheader]
  rw [hfilter]
  dsimp only
  rw [hparse]
  refine Task.Returns.bind (Task.Returns.call fun s₁ _ known s₂ _ found hfound => ?_)
  cases found with
  | none => exact Task.Returns.pure fun h => by cases h
  | some peer =>
    refine Task.Returns.bind (Task.Returns.attempt (Task.Yields.mono
      (verifyPeerRequest_claims hparse peer rfl) fun tr r s' hclaims => ?_))
    cases r with
    | error e =>
      cases e
      case unauthorizedPeerRequest reason => exact Task.Returns.pure fun h => by cases h
      all_goals exact Task.Returns.throw
    | ok verified =>
      refine Task.Returns.pure fun _ => ?_
      rw [List.append_nil]
      simpa using (hclaims verified rfl).append [_] []

theorem handleMembers_claims {header : String} {env : SignedRequest}
    (hparse : P.parseSignedRequest header = some env) :
    Task.Returns HostState.sem background (node.handleMembers P V (some header)) s fun tr r _ =>
      r.1 = 200 → Claims (nonceCacheKey env) tr := by
  refine Task.Returns.bind
    (Task.Returns.mono (authenticateKnownPeer_claims hparse _ _ _) fun tr r s' hclaims => ?_)
  obtain ⟨ok, reason⟩ := r
  cases ok with
  | false => exact Task.Returns.pure fun h => by cases h
  | true =>
    have hclaimed := hclaims rfl
    refine Task.Yields.mono (P := fun _ _ _ => True) (fun _ _ _ _ => trivial)
      fun tr' r' u _ a _ _ => ?_
    simpa using hclaimed.append [] tr'

theorem handleIntroduce_claims {header : String} {env : SignedRequest}
    (hparse : P.parseSignedRequest header = some env) (body : Bytes) :
    Task.Returns HostState.sem background (node.handleIntroduce P V decode body (some header)) s
      fun tr r _ => r.1 = 200 → Claims (nonceCacheKey env) tr := by
  rw [ExampleNode.handleIntroduce]
  cases hbody : (decode body).bind (Validated.read V : Reader IntroduceRequest) with
  | none => exact Task.Returns.throw
  | some intro =>
  refine Task.Returns.bind (Task.Yields.mono (P := fun _ _ _ => True) (fun _ _ _ _ => trivial)
    fun tr r s' _ verdict _ => ?_)
  obtain ⟨ok, reason⟩ := verdict
  cases ok with
  | false => exact Task.Returns.pure fun h => by cases h
  | true =>
    refine Task.Returns.bind (Task.Returns.attempt (Task.Yields.mono
      (verifyPeerRequest_claims hparse intro.manifest rfl) fun tr' r' u hclaims => ?_))
    cases r' with
    | error e =>
      cases e
      case unauthorizedPeerRequest reason => exact Task.Returns.pure fun h => by cases h
      all_goals exact Task.Returns.throw
    | ok verified =>
      have hclaimed := hclaims verified rfl
      refine Task.Yields.mono (P := fun _ _ _ => True) (fun _ _ _ _ => trivial)
        fun rest _ _ _ a _ _ => ?_
      exact hclaimed.append tr rest

end Replay

/-- The request goes to a route that claims nonces, with the envelope in its header. -/
structure Presents (P : Platform) (request : HttpRequest) (env : SignedRequest) : Prop where
  route : request.method = .get ∧ request.path = "/federation/v1/members" ∨
    request.method = .post ∧ request.path = "/federation/v1/members/introduce"
  parsed : ∃ header, request.signatureHeader = some header ∧ P.parseSignedRequest header = some env

theorem serve_claims {P : Platform} {V : Scalars} {decode : Bytes → Option Json}
    {node : ExampleNode} {background : HostState → HostState → Prop} {s : HostState}
    {request : HttpRequest} {env : SignedRequest} (hpresents : Presents P request env) :
    Task.Returns HostState.sem background (node.serve P V decode request) s fun tr r _ =>
      r.1 = 200 → Claims (nonceCacheKey env) tr := by
  obtain ⟨hroute, header, hheader, hparse⟩ := hpresents
  obtain ⟨method, path, signatureHeader, body⟩ := request
  dsimp only at hheader hroute
  subst hheader
  rw [ExampleNode.serve]
  rcases hroute with ⟨rfl, rfl⟩ | ⟨rfl, rfl⟩
  · cases node.manifest with
    | none => exact Task.Returns.throw
    | some manifest =>
      have hne : "/federation/v1/members" ≠ manifestPath := by decide
      simp only [hne, ↓reduceIte]
      exact handleMembers_claims hparse
  · simp only [↓reduceIte]
    exact handleIntroduce_claims hparse body

/-- Of two requests with one nonce the one that is handled later is refused, whatever
else is served meanwhile. -/
theorem later_replay_refused (P : Platform) (V : Scalars) (decode : Bytes → Option Json)
    (node : ExampleNode) (operator : Manifest → Prop) (requests : List HttpRequest)
    (s s' : HostState) (tr : List (Nat × Event HostOp HostOp.Resp HostState))
    (answers : List (Except Exc HttpAnswer))
    (hrun : Gathers HostState.sem (HostState.Aside operator)
      (requests.map fun r => (node.serve P V decode r).run) s tr
      answers s') (i j : Nat) (first later : HttpRequest) (hi : requests[i]? = some first)
    (hj : requests[j]? = some later) (env env' : SignedRequest) (hfirst : Presents P first env)
    (hlater : Presents P later env') (hnonce : nonceCacheKey env = nonceCacheKey env')
    (hbefore : Before i j tr) (payload : List (String × Json))
    (haccepted : answers[i]? = some (.ok (200, payload))) (payload' : List (String × Json)) :
    answers[j]? ≠ some (.ok (200, payload')) := by
  intro hagain
  have hthread (k : Nat) (request : HttpRequest) (hk : requests[k]? = some request) :
      (requests.map fun r => (node.serve P V decode r).run)[k]? =
        some (node.serve P V decode request).run := by
    simp [hk]
  obtain ⟨a, u, ha, hruni⟩ := hrun.runs (hthread i first hi)
  obtain ⟨a', u', ha', hrunj⟩ := hrun.runs (hthread j later hj)
  obtain rfl := Option.some.inj (haccepted.symm.trans ha)
  obtain rfl := Option.some.inj (hagain.symm.trans ha')
  obtain ⟨added, hadded, heff⟩ := (serve_claims hfirst _ _ _ hruni _ rfl rfl).added
  obtain ⟨tested, htested, hanswer⟩ := (serve_claims hlater _ _ _ hrunj _ rfl rfl).tested
  obtain ⟨before, rest, htr, hmem⟩ := hbefore.split hadded htested
  have hseen : nonceCacheKey env ∈ tested.pre.seen := by
    refine hrun.since (I := fun u => nonceCacheKey env ∈ u.seen) ?_ ?_ htr ?_ _ hmem
    · rintro u u' hu (_ | _) <;> exact hu
    · intro op u r u' hu hsem
      have hpost : u' = (u.handle op).2 := (Prod.mk.inj hsem).2
      subst hpost
      cases op with
      | nonceAdd key => exact List.mem_cons_of_mem _ hu
      | _ => exact hu
    · have hsem := hrun.sem_of_mem _ (mem_eventsOf.mp hadded)
      obtain ⟨u, op, r, u'⟩ := added
      dsimp only at heff
      subst heff
      have hpost : u' = (u.handle (.nonceAdd (nonceCacheKey env))).2 := (Prod.mk.inj hsem).2
      subst hpost
      exact List.mem_cons_self
  have hsem := hrun.sem_of_mem _ (mem_eventsOf.mp htested)
  obtain ⟨u, op, r, u'⟩ := tested
  obtain ⟨rfl, hr⟩ := Sigma.mk.inj hanswer
  obtain rfl := eq_of_heq hr
  have hfree : decide (nonceCacheKey env' ∈ u.seen) = false := (Prod.mk.inj hsem).1.symm
  rw [hnonce] at hseen
  exact absurd hseen (of_decide_eq_false hfree)

/-- `alpha`'s request for members is heard twice, and answered once. -/
theorem alpha_replay_refused :
    ∃ received payload tr answers s', Gathers HostState.sem (HostState.Aside fun _ => False)
      ((List.replicate 2 { method := .get, path := hostMembersUrl.requestPath,
                           signatureHeader := some "envelope" }).map
        fun r => (betaHost.serve (hostPlatform received) strictScalars (fun _ => none) r).run)
      knowingState tr answers s' ∧
    answers[0]? = some (.ok (200, payload)) ∧
    ∀ payload', answers[1]? ≠ some (.ok (200, payload')) := by
  obtain ⟨out, received, hdelivered⟩ := alpha_delivered hostMembersUrl rfl "GET" []
  obtain ⟨signed, _, payload, hsigned, _, hdump⟩ :=
    @members_signed (hostPlatform received) strictScalars betaHost
    strictScalars_faithful (fun _ _ => dictDumps_congr) (fun _ => dictDumps_safe)
    (spareSigner_host received) knowingState.trustedPeers.entries (by decide)
  have hsha : Function.Injective (hostPlatform received).sha256Hexdigest :=
    exchange_sha256_injective getMembersRequest
  have hclient : alphaClient.key.Ideal (hostPlatform received) := alphaSigner_host received
  have hknown : knowingState.trustedPeers.get alphaClient.nodeId = some signerManifest := rfl
  have hserved := serve_members_hosted strictScalars_faithful (fun _ _ => dictDumps_congr) hsha
    (fun _ => none) hclient rfl betaHost_describes rfl hdelivered hknown ⟨rfl, rfl⟩ (by decide)
    (by simp [knowingState]) hsigned hdump
  let request : HttpRequest :=
    { method := .get, path := hostMembersUrl.requestPath, signatureHeader := some "envelope" }
  have hpresents : Presents (hostPlatform received) request received :=
    ⟨.inl ⟨rfl, @HttpUrl.requestPath_eq "/federation/v1/members" hostMembersUrl rfl (by decide)⟩,
      "envelope", rfl, rfl⟩
  obtain ⟨tr, hbefore, hrun⟩ := served_in_turn (hostPlatform received) strictScalars
    (fun _ => none) betaHost (fun _ => False) request request knowingState
  rw [hserved] at hrun
  exact ⟨received, payload, tr, _, _, hrun, rfl, later_replay_refused (hostPlatform received)
    strictScalars (fun _ => none)
    betaHost (fun _ => False) [request, request] knowingState _ tr _ hrun 0 1 request request rfl
    rfl received received hpresents hpresents rfl hbefore payload rfl⟩

/-- States that no request can tell apart. -/
structure HostState.Alike (s s' : HostState) : Prop where
  clock : s'.clock = s.clock
  trustedPeers : s'.trustedPeers = s.trustedPeers
  seen : ∀ key, key ∈ s'.seen ↔ key ∈ s.seen

theorem HostState.Alike.handle {u v : HostState} (h : u.Alike v) (op : HostOp) :
    (v.handle op).1 = (u.handle op).1 ∧ (u.handle op).2.Alike (v.handle op).2 := by
  have hclock := h.clock
  cases op with
  | library call =>
    refine ⟨?_, h⟩
    obtain ⟨o, op⟩ := call
    cases op
    case utcNow => exact hclock
    all_goals rfl
  | nonceSeen key => exact ⟨decide_eq_decide.mpr (h.seen key), h⟩
  | nonceAdd key =>
    exact ⟨rfl, h.clock, h.trustedPeers, fun k => by simp [HostState.handle, h.seen]⟩
  | trustedGet nodeId => exact ⟨congrArg (fun t => t.get nodeId) h.trustedPeers, h⟩
  | trustedPut peer =>
    exact ⟨rfl, h.clock, congrArg (fun t => t.upsert peer) h.trustedPeers, h.seen⟩
  | trustedValues => exact ⟨congrArg (fun t => t.entries) h.trustedPeers, h⟩

theorem HostState.Alike.again {u v : HostState} {op : HostOp} (h : (u.handle op).2.Alike v) :
    (v.handle op).1 = (u.handle op).1 ∧ (u.handle op).2.Alike (v.handle op).2 := by
  obtain ⟨hanswer, hnext⟩ := h.handle op
  have hsame : ((u.handle op).2.handle op).1 = (u.handle op).1 := by cases op <;> rfl
  have htwice : (u.handle op).2.Alike ((u.handle op).2.handle op).2 := by
    cases op with
    | nonceAdd key => exact ⟨rfl, rfl, fun k => by simp [HostState.handle]⟩
    | trustedPut peer =>
      exact ⟨rfl, Keyed.upsert_of_get (Keyed.get_upsert_self _ peer), fun k => Iff.rfl⟩
    | _ => exact ⟨rfl, rfl, fun k => Iff.rfl⟩
  refine ⟨hanswer.trans hsame, hnext.clock.trans htwice.clock,
    hnext.trustedPeers.trans htwice.trustedPeers, fun k => ?_⟩
  exact (hnext.seen k).trans (htwice.seen k)

/-- The nonce cache does not hold replays back that overlap: any number of copies of a
request may all be answered as the request alone would be. -/
theorem overlapping_replays_answered (P : Platform) (V : Scalars) (decode : Bytes → Option Json)
    (node : ExampleNode) (request : HttpRequest) (s : HostState) (n : Nat) :
    ∃ tr s', Gathers HostState.sem (HostState.Aside fun _ => False)
      ((List.replicate (n + 1) request).map fun r => (node.serve P V decode r).run) s tr
      (List.replicate (n + 1) ((node.serve P V decode request).run.eval HostState.handle s).1) s' :=
        by
  rw [List.map_replicate]
  have hsem (op : HostOp) (u : HostState) :
      HostState.sem op u (u.handle op).1 (u.handle op).2 := rfl
  have hsame (op : HostOp) (u v : HostState) (h : u.Alike v) := h.handle op
  have hagain (op : HostOp) (u v : HostState) (h : (u.handle op).2.Alike v) := h.again
  exact Gathers.lockstep hsem hsame hagain (serve_composed request) n ⟨rfl, rfl, fun _ => Iff.rfl⟩

end Federlet
