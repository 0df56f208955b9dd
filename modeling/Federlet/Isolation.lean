import Federlet.Nonces
import Federlet.Revocation

/-! One peer in two federations. A request names the federation it is made in, and
the name enters the nonce key; no verdict looks at it. -/

namespace Federlet

open Coop

inductive Side where
  | first
  | second

def Side.pick {α : Type} (a b : α) : Side → α
  | .first => a
  | .second => b

def Side.other : Side → Side
  | .first => .second
  | .second => .first

theorem Side.pick_of_eq {α β : Type} {f : α → β} {a b : α} (h : f a = f b) (side : Side) :
    f (side.pick a b) = f a := by
  cases side with
  | first => rfl
  | second => exact h.symm

theorem Side.pick_other_ne {α β : Type} {f : α → β} {a b : α} (h : f a ≠ f b) (side : Side) :
    f (side.pick a b) ≠ f (side.other.pick a b) := by
  cases side with
  | first => exact h
  | second => exact h.symm

/-- One call of `verify_known_inbound`: its arguments, the manifests the facade has
cached by then, the clock it reads and the time at which it claims a nonce. -/
structure KnownCall (τ : Type) where
  side : Side
  signatureHeader : Option String
  sourceNodeId : String
  method : String
  path : String
  body : Bytes := []
  maxBodyBytes : Option Int := none
  maxSkewSeconds : Int := 300
  peerManifests : String → Option Manifest
  now : DateTime
  claimTime : τ

def KnownCall.across {τ : Type} (call : KnownCall τ) :
    KnownCall τ := { call with side := call.side.other }

section Facades

variable {σ τ : Type} (P : Platform) (cache : NonceCache σ τ) (others : (c : Call) → Resp c)

namespace KnownCall

def answers (call : KnownCall τ) (c : Call) : Resp c :=
  match c with
  | ⟨_, .cacheGet n⟩ => call.peerManifests n
  | c => others c

def verify (node : FederationNode) (call : KnownCall τ) (s : σ) : Except Exc VerifiedPeer × σ :=
  (node.verifyKnownInbound P call.signatureHeader call.sourceNodeId call.method call.path call.body
    call.maxBodyBytes
    call.maxSkewSeconds).run.eval (cache.handle (call.answers others) call.now call.claimTime) s

def inbound (node : FederationNode) (call : KnownCall τ) : Inbound :=
  { selfNodeId := node.nodeId, method := call.method, path := call.path, body := call.body
    maxBodyBytes := call.maxBodyBytes, maxSkewSeconds := call.maxSkewSeconds,
    cache := node.nonceCache }

/-- The envelope is one of a known source, signed by a key that source advertises,
made for this node, method, path and body, fresh, and its nonce can be claimed. -/
def Admissible (node : FederationNode) (call : KnownCall τ) (s : σ) (env : SignedRequest) : Prop :=
  ∃ manifest signature jwk, call.peerManifests call.sourceNodeId = some manifest ∧
    selectSigner P call.signatureHeader manifest = .ok (env, signature, jwk) ∧
    envelopeReason P env (call.inbound node) call.now = none ∧ verifyModel P env jwk = .ok true ∧
    (node.nonceCache = true →
      (cache.set s call.claimTime (nonceCacheKey env) call.maxSkewSeconds).1 = .ok true)

end KnownCall

/-- The calls made on either facade, each with the state its nonce cache was in and its verdict. -/
def inboundRun (a b : FederationNode) :
    List (KnownCall τ) → σ × σ → List (KnownCall τ × σ × Except Exc VerifiedPeer)
  | [], _ => []
  | call :: calls, (s, t) =>
    match call.side with
    | .first => (call, s, (call.verify P cache others a s).1) ::
        inboundRun a b calls ((call.verify P cache others a s).2, t)
    | .second => (call, t, (call.verify P cache others b t).1) ::
        inboundRun a b calls (s, (call.verify P cache others b t).2)

/-- A facade accepts only envelopes of its own federation. -/
def Isolated (a b : FederationNode)
    (run : List (KnownCall τ × σ × Except Exc VerifiedPeer)) : Prop :=
  ∀ x ∈ run, (∃ peer, x.2.2 = .ok peer) → ∀ header env, x.1.signatureHeader = some header →
    P.parseSignedRequest header = some env → env.federationId = (x.1.side.pick a b).federationId

variable {P cache others}

theorem claimNonce_accepts_iff {env : SignedRequest} {req : Inbound} {signature : Signature}
    {verdict : Except Exc (Bool × String)} {now : DateTime} {t : τ} {s : σ} :
    (∃ peer, peerOf env signature
      ((claimNonce env req verdict).eval (cache.handle others now t) s).1 = .ok peer) ↔
      (∃ reason, verdict = .ok (true, reason)) ∧
        (req.cache = true → (cache.set s t (nonceCacheKey env) req.maxSkewSeconds).1 = .ok true) :=
          by
  rcases verdict with e | ⟨ok, reason⟩
  · simp [claimNonce, peerOf]
  cases ok with
  | false => simp [claimNonce, peerOf]
  | true =>
    cases hcache : req.cache with
    | false => simp [claimNonce, hcache, peerOf]
    | true =>
      have hset :
          (cache.handle others now t
            ⟨.inbound, .nonceSet (nonceCacheKey env) req.maxSkewSeconds⟩ s).1 =
        (cache.set s t (nonceCacheKey env) req.maxSkewSeconds).1 := rfl
      simp only [claimNonce, hcache, ↓reduceIte, Task.eval_call, Task.eval_done, hset]
      generalize (cache.set s t (nonceCacheKey env) req.maxSkewSeconds).1 = claimed
      rcases claimed with e | claimed
      · simp [peerOf, Except.map]
      · cases claimed <;> simp [peerOf, Except.map]

theorem KnownCall.verify_unknown {node : FederationNode} {call : KnownCall τ} {s : σ}
    (h : call.peerManifests call.sourceNodeId = none) :
    (call.verify P cache others node s).1 = .error (.unauthorizedPeerRequest "unknown_peer") := by
  have hget : (cache.handle (call.answers others) call.now call.claimTime
      ⟨.inbound, .cacheGet call.sourceNodeId⟩ s).1 = none := h
  rw [verify, FederationNode.verifyKnownInbound, Task.eval_run_bind, PeerManifests.get,
    ExceptT.run_mk, Task.eval_call, hget]
  rfl

theorem KnownCall.verify_known {node : FederationNode} {call : KnownCall τ} {s : σ}
    {manifest : Manifest} (h : call.peerManifests call.sourceNodeId = some manifest) :
    call.verify P cache others node s =
      (verifyPeerRequest P call.signatureHeader manifest (call.inbound node)).run.eval
      (cache.handle (call.answers others) call.now call.claimTime) s := by
  have hget : (cache.handle (call.answers others) call.now call.claimTime
      ⟨.inbound, .cacheGet call.sourceNodeId⟩ s).1 = some manifest := h
  rw [verify, FederationNode.verifyKnownInbound, Task.eval_run_bind, PeerManifests.get,
    ExceptT.run_mk, Task.eval_call, hget]
  rfl

theorem KnownCall.accepts_iff (node : FederationNode) (call : KnownCall τ) (s : σ) :
    (∃ peer, (call.verify P cache others node s).1 = .ok peer) ↔
      ∃ env, call.Admissible P cache node s env := by
  cases hpeer : call.peerManifests call.sourceNodeId with
  | none =>
    rw [KnownCall.verify_unknown hpeer]
    simp [Admissible, hpeer]
  | some manifest =>
    rw [KnownCall.verify_known hpeer]
    cases hsel : selectSigner P call.signatureHeader manifest with
    | error e =>
      rw [verifyPeerRequest_run_of_error hsel]
      simp [Admissible, hpeer, hsel]
    | ok signer =>
      obtain ⟨env, signature, jwk⟩ := signer
      rw [verifyPeerRequest_run_of_signer hsel, Task.eval_bind, Task.eval_done,
        verifySignedRequest_run, Task.eval_call, claimNonce_accepts_iff]
      have hnow : ∀ c :
          σ, (cache.handle (call.answers others) call.now call.claimTime ⟨.inbound, .utcNow⟩ c).1 =
            call.now :=
        fun _ => rfl
      have hkeep : ∀ c :
          σ, (cache.handle (call.answers others) call.now call.claimTime ⟨.inbound, .utcNow⟩ c).2 =
            c :=
        fun _ => rfl
      rw [hnow, hkeep]
      constructor
      · rintro ⟨⟨reason, hchecks⟩, hclaim⟩
        obtain ⟨_, hreason, hv⟩ := checkSignedRequestAt_true_iff.mp hchecks
        exact ⟨env, manifest, signature, jwk, hpeer, hsel, hreason, hv, hclaim⟩
      · rintro ⟨env', manifest', signature', jwk', hpeer', hsel', hreason, hv, hclaim⟩
        obtain rfl : manifest = manifest' := Option.some.inj (hpeer.symm.trans hpeer')
        obtain ⟨rfl, rfl, rfl⟩ : env = env' ∧ signature = signature' ∧ jwk = jwk' := by
          simpa using hsel.symm.trans hsel'
        exact ⟨⟨"ok", checkSignedRequestAt_true_iff.mpr ⟨rfl, hreason, hv⟩⟩, hclaim⟩

theorem KnownCall.Admissible.parsed {node : FederationNode} {call : KnownCall τ} {s : σ}
    {env : SignedRequest} (h : call.Admissible P cache node s env) :
    ∃ header, call.signatureHeader = some header ∧ P.parseSignedRequest header = some env := by
  obtain ⟨manifest, signature, jwk, _, hsel, _⟩ := h
  obtain ⟨header, hheader, _, hparse, _⟩ := selectSigner_ok_iff.mp hsel
  exact ⟨header, hheader, hparse⟩

theorem inboundRun_second {a b : FederationNode} {call : KnownCall τ}
    {calls : List (KnownCall τ)} {st : σ × σ} (hside : call.side = .second) :
    inboundRun P cache others a b (call :: calls) st =
      (call, st.2, (call.verify P cache others b st.2).1) ::
      inboundRun P cache others a b calls (st.1, (call.verify P cache others b st.2).2) := by
  simp only [inboundRun, hside]

theorem Isolated.second_call {a b : FederationNode} {call : KnownCall τ}
    {calls : List (KnownCall τ)} {st : σ × σ} {env : SignedRequest}
    (h : Isolated P a b (inboundRun P cache others a b (call :: calls) st))
    (hside : call.side = .second) (hadmissible : call.Admissible P cache b st.2 env) :
    env.federationId = b.federationId := by
  obtain ⟨header, hheader, hparse⟩ := hadmissible.parsed
  have haccepted := (@KnownCall.accepts_iff _ _ _ _ others b call st.2).mpr ⟨env, hadmissible⟩
  rw [inboundRun_second hside] at h
  have hown := h _ List.mem_cons_self haccepted header env hheader hparse
  rwa [hside] at hown

/-- A call is nowhere wrong on the other facade that is not on the first, as long as
its nonce can be claimed there. -/
theorem KnownCall.Admissible.transfer {a b : FederationNode} {call : KnownCall τ} {s t : σ}
    {env : SignedRequest} (h : call.Admissible P cache a s env) (hnode : a.nodeId = b.nodeId)
    (hcache : a.nonceCache = b.nonceCache) (hclaim : b.nonceCache = true →
      (cache.set t call.claimTime (nonceCacheKey env) call.maxSkewSeconds).1 = .ok true) :
    call.across.Admissible P cache b t env := by
  obtain ⟨manifest, signature, jwk, hpeer, hsel, hreason, hv, _⟩ := h
  have hinbound : call.across.inbound b = call.inbound a := by
    simp only [across, inbound, hnode, hcache]
  exact ⟨manifest, signature, jwk, hpeer, hsel, hinbound ▸ hreason, hv, hclaim⟩

theorem inboundRun_across {a b : FederationNode} (call : KnownCall τ) (s t : σ) :
    inboundRun P cache others a b [call, call.across] (call.side.pick (s, t) (t, s)) =
      [(call, s, (call.verify P cache others (call.side.pick a b) s).1),
        (call.across, t, (call.across.verify P cache others (call.across.side.pick a b) t).1)] := by
  cases hside : call.side <;> simp [inboundRun, KnownCall.across, Side.pick, Side.other, hside]

/-- Whatever one facade accepts the other accepts too, as soon as it is brought there
while its nonce can be claimed: no acceptance is the privilege of a federation. -/
theorem never_isolated (P : Platform) (cache : NonceCache σ τ) (others : (c : Call) → Resp c)
    (a b : FederationNode) (hnode : a.nodeId = b.nodeId) (hcache : a.nonceCache = b.nonceCache)
    (hfederation : a.federationId ≠ b.federationId) (call : KnownCall τ) (s t : σ)
    (haccepted : ∃ peer, (call.verify P cache others (call.side.pick a b) s).1 = .ok peer)
    (hclaim : ∀ header env, call.signatureHeader = some header →
      P.parseSignedRequest header = some env →
      a.nonceCache = true → (cache.set t call.claimTime (nonceCacheKey env) call.maxSkewSeconds).1 =
        .ok true) :
    (∃ peer, (call.across.verify P cache others (call.across.side.pick a b) t).1 = .ok peer) ∧
      ¬ Isolated P a b (inboundRun P cache others a b [call, call.across]
        (call.side.pick (s, t) (t, s))) := by
  obtain ⟨env, hadmissible⟩ := (KnownCall.accepts_iff _ _ _).mp haccepted
  obtain ⟨header, hheader, hparse⟩ := hadmissible.parsed
  have hother : ∃ peer, (call.across.verify P cache others (call.across.side.pick a b) t).1 =
      .ok peer := by
    refine (KnownCall.accepts_iff _ _ _).mpr ⟨env, ?_⟩
    have hown := Side.pick_of_eq hcache call.side
    have hforeign := Side.pick_of_eq hcache call.side.other
    refine hadmissible.transfer ?_ (hown.trans hforeign.symm) fun hc => ?_
    · exact (Side.pick_of_eq hnode call.side).trans (Side.pick_of_eq hnode call.side.other).symm
    · exact hclaim header env hheader hparse (hforeign ▸ hc)
  refine ⟨hother, fun hisolated => Side.pick_other_ne hfederation call.side ?_⟩
  rw [inboundRun_across] at hisolated
  have hown := hisolated _ List.mem_cons_self haccepted header env hheader hparse
  have hforeign := hisolated _ (List.mem_cons_of_mem _ List.mem_cons_self) hother header env
    hheader hparse
  exact hown.symm.trans hforeign

end Facades

def firstBeta : FederationNode := { beta with nonceCache := true }

def secondBeta : FederationNode := { firstBeta with federationId := "other" }

def membersCall (side : Side) : KnownCall Int :=
  { side, signatureHeader := some (headerOf getMembersRequest), sourceNodeId := "alpha",
    method := "get"
    path := "/members", peerManifests := fun n => if n = "alpha" then some alphaManifest else none
    now := newYear2026, claimTime := newYear2026.instant }

theorem membersCall_admissible (side : Side) {node : FederationNode}
    (hnode : node = firstBeta ∨ node = secondBeta) :
    (membersCall side).Admissible (exchange getMembersRequest) ledgerCache node
    [] getMembersRequest := by
  have hsel := @exchange_selectSigner getMembersRequest _ ⟨_, rfl⟩ rfl rfl rfl
  obtain ⟨_, hreason, hv⟩ :=
    checkSignedRequestAt_true_iff.mp (@membersRequest_checks newYear2026 (by decide))
  refine ⟨alphaManifest, _, alphaKey, rfl, hsel, ?_, hv, fun _ => rfl⟩
  rcases hnode with rfl | rfl <;> exact hreason

/-- The request, made in the federation `fed`, is accepted in the federation `other` as well. -/
theorem other_federation_accepts :
    firstBeta.nodeId = secondBeta.nodeId ∧ firstBeta.federationId ≠ secondBeta.federationId ∧
      ¬ Isolated (exchange getMembersRequest) firstBeta secondBeta
        (inboundRun (exchange getMembersRequest) ledgerCache silentAnswers firstBeta secondBeta
          [membersCall .second] ([], [])) := by
  refine ⟨rfl, by decide, fun h => ?_⟩
  have hadmissible := membersCall_admissible .second (.inr rfl)
  have hown : getMembersRequest.federationId = secondBeta.federationId :=
    h.second_call rfl hadmissible
  exact absurd hown (by decide)

/-- The first facade accepts the request of its own federation, and so does the second. -/
theorem own_federation_accepts :
    (∃ peer, ((membersCall .second).verify (exchange getMembersRequest) ledgerCache silentAnswers
        secondBeta []).1 = .ok peer) ∧
      ¬ Isolated (exchange getMembersRequest) firstBeta secondBeta
        (inboundRun (exchange getMembersRequest) ledgerCache silentAnswers firstBeta secondBeta
          [membersCall .first, membersCall .second] ([], [])) := by
  refine never_isolated (exchange getMembersRequest) ledgerCache silentAnswers firstBeta secondBeta
    rfl rfl (by decide) (membersCall .first) [] [] ?_ fun _ _ _ _ _ => rfl
  exact (KnownCall.accepts_iff _ _ _).mpr ⟨_, membersCall_admissible .first (.inl rfl)⟩

end Federlet
