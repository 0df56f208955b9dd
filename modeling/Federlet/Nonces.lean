import Federlet.Continuity
import Federlet.Replay

/-! What requests do to each other through the nonce cache. A rejected request
leaves no trace in it; an accepted one can stand in the way of another only
through the key its nonce is claimed under. -/

namespace Federlet

open Coop

/-- A nonce cache: what `set(key, 1, expire=expire, exist=False)` answers and
leaves at a time. A set that does not succeed changes nothing. -/
structure NonceCache (σ τ : Type) where
  set : σ → τ → String → Int → Except Exc Bool × σ
  set_failed : ∀ s t key expire, (set s t key expire).1 ≠ .ok true → (set s t key expire).2 = s

/-- One call of `verify_peer_request`: its arguments, the clock it reads and the
time at which it claims a nonce. -/
structure InboundCall (τ : Type) where
  signatureHeader : Option String
  peerManifest : Manifest
  req : Inbound
  now : DateTime
  claimTime : τ

section Sequence

variable {σ τ : Type} (P : Platform) (cache : NonceCache σ τ) (others : (c : Call) → Resp c)

/-- The surroundings of one call. Verification reads the clock and sets a nonce;
what other calls would answer is left open. -/
def NonceCache.handle (now : DateTime) (claimTime : τ) (c : Call) (s : σ) : Resp c × σ :=
  match c with
  | ⟨_, .utcNow⟩ => (now, s)
  | ⟨_, .nonceSet key expire⟩ => cache.set s claimTime key expire
  | c => (others c, s)

def InboundCall.verify (call : InboundCall τ) (s : σ) : Except Exc VerifiedPeer × σ :=
  (verifyPeerRequest P call.signatureHeader call.peerManifest call.req).run.eval
    (cache.handle others call.now call.claimTime) s

/-- The calls of a sequence, each with its verdict. -/
def verdicts : List (InboundCall τ) → σ → List (InboundCall τ × Except Exc VerifiedPeer)
  | [], _ => []
  | call :: calls, s =>
    let (verdict, s') := call.verify P cache others s
    (call, verdict) :: verdicts calls s'

/-- What remains once the rejected calls are deleted. -/
def kept (calls : List (InboundCall τ)) (s : σ) : List (InboundCall τ × Except Exc VerifiedPeer) :=
  (verdicts P cache others calls s).filter fun v => v.2.isOk

variable {P cache others}

theorem claimNonce_rejected {env : SignedRequest} {req : Inbound}
    {verdict : Except Exc (Bool × String)} {now : DateTime} {t : τ} {s : σ}
    (h : ∀ reason, ((claimNonce env req verdict).eval (cache.handle others now t) s).1 ≠
      .ok (true, reason)) :
    ((claimNonce env req verdict).eval (cache.handle others now t) s).2 = s := by
  rcases verdict with e | ⟨ok, reason⟩
  · rfl
  cases ok with
  | false => rfl
  | true =>
    cases hcache : req.cache with
    | false => simp only [claimNonce, hcache, Bool.false_eq_true, ↓reduceIte, Task.eval_done]
    | true =>
      simp only [claimNonce, hcache, ↓reduceIte, Task.eval_call, Task.eval_done] at h ⊢
      refine cache.set_failed s t _ _ fun hok => ?_
      have hset :
          (cache.handle others now t
            ⟨.inbound, .nonceSet (nonceCacheKey env) req.maxSkewSeconds⟩ s).1 =
        .ok true := hok
      exact h "ok" (by rw [hset]; rfl)

theorem InboundCall.verify_rejected {call : InboundCall τ} {s : σ}
    (h : (call.verify P cache others s).1.isOk = false) : (call.verify P cache others s).2 = s := by
  rw [InboundCall.verify] at h ⊢
  cases hsel : selectSigner P call.signatureHeader call.peerManifest with
  | error e =>
    rw [verifyPeerRequest_run_of_error hsel]
    rfl
  | ok signer =>
    obtain ⟨env, signature, jwk⟩ := signer
    rw [verifyPeerRequest_run_of_signer hsel, Task.eval_bind, verifySignedRequest_run] at h ⊢
    refine claimNonce_rejected fun reason hok => ?_
    simp only [Task.eval_call] at h hok
    rw [hok] at h
    exact absurd h (by simp [peerOf, Except.isOk, Except.toBool])

/-- Without its rejected calls a sequence gives every remaining call the verdict
it had, and no rejected call changes the cache. -/
theorem verdicts_without_rejected (calls : List (InboundCall τ)) (s : σ) :
    verdicts P cache others ((kept P cache others calls s).map Prod.fst) s = kept P cache
      others calls s ∧
      ∀ call : InboundCall τ, (call.verify P cache others s).1.isOk = false →
      (call.verify P cache others s).2 = s := by
  refine ⟨?_, fun call h => InboundCall.verify_rejected h⟩
  induction calls generalizing s with
  | nil => rfl
  | cons call calls ih =>
    have htail := ih (call.verify P cache others s).2
    rw [kept, verdicts, List.filter_cons]
    by_cases hok : (call.verify P cache others s).1.isOk = true
    · rw [if_pos hok, List.map_cons, verdicts]
      exact congrArg _ htail
    · rw [if_neg hok, InboundCall.verify_rejected (Bool.eq_false_iff.mpr hok)]
      exact ih s

end Sequence

def ledgerCache : NonceCache (List (Claim String Int)) Int where
  set nonces now key expire :=
    let (claimed, nonces) := Ledger.claim nonces ⟨key, now, now + expire * 1000000⟩
    (.ok claimed, nonces)
  set_failed nonces now key expire h := by
    cases hg : Ledger.granted nonces key now with
    | true => exact absurd (by rw [Ledger.claim_granted hg]) h
    | false => rw [Ledger.claim_refused hg]

theorem separated_eq_iff {x y u v : String} :
    x ++ ":" ++ u = y ++ ":" ++ v ↔ (x = y ∧ u = v) ∨
      (∃ w, y = x ++ ":" ++ w ∧ u = w ++ ":" ++ v) ∨ ∃ w, x = y ++ ":" ++ w ∧
      v = w ++ ":" ++ u := by
  constructor
  · intro h
    have hl := congrArg String.toList h
    simp only [String.toList_append, List.append_assoc] at hl
    have hcolon : ":".toList = [':'] := rfl
    rw [hcolon] at hl
    rcases List.append_eq_append_iff.mp hl with ⟨w, hy, hu⟩ | ⟨w, hx, hv⟩
    · cases w with
      | nil =>
        exact .inl ⟨String.toList_inj.mp (by simpa using hy.symm), String.toList_inj.mp
          (by simpa using hu)⟩
      | cons c w =>
        obtain rfl : ':' = c := (List.cons.inj hu).1
        have htail : u.toList = w ++ ':' :: v.toList := (List.cons.inj hu).2
        refine .inr (.inl ⟨String.ofList w, ?_, ?_⟩) <;> apply String.toList_inj.mp <;>
          simp [hy, htail]
    · cases w with
      | nil =>
        exact .inl ⟨String.toList_inj.mp (by simpa using hx), String.toList_inj.mp
          (by simpa using hv.symm)⟩
      | cons c w =>
        obtain rfl : ':' = c := (List.cons.inj hv).1
        have htail : v.toList = w ++ ':' :: u.toList := (List.cons.inj hv).2
        refine .inr (.inr ⟨String.ofList w, ?_, ?_⟩) <;> apply String.toList_inj.mp <;>
          simp [hx, htail]
  · rintro (⟨rfl, rfl⟩ | ⟨w, rfl, rfl⟩ | ⟨w, rfl, rfl⟩)
    · rfl
    · simp only [String.append_assoc]
    · simp only [String.append_assoc]

def afterSource (env : SignedRequest) : String := env.targetNodeId ++ ":" ++ env.nonce

def afterFederation (env : SignedRequest) : String := env.sourceNodeId ++ ":" ++ afterSource env

/-- The ids of `b` go on where those of `a` end, by a colon and what the rest of
`a`'s fields begin with. -/
def RunsInto (a b : SignedRequest) : Prop :=
  (∃ w, b.federationId = a.federationId ++ ":" ++ w ∧
    afterFederation a = w ++ ":" ++ afterFederation b) ∨
    (a.federationId = b.federationId ∧
      ∃ w, b.sourceNodeId = a.sourceNodeId ++ ":" ++ w ∧ afterSource a = w ++ ":" ++ afterSource b)

theorem append_fields (tag f s t n : String) :
    tag ++ f ++ ":" ++ s ++ ":" ++ t ++ ":" ++ n = tag ++
      (f ++ ":" ++ (s ++ ":" ++ (t ++ ":" ++ n))) := by
  simp only [String.append_assoc]

theorem nonceCacheKey_eq (env : SignedRequest) :
    nonceCacheKey env = "federlet:nonce:" ++ (env.federationId ++ ":" ++ afterFederation env) :=
  append_fields _ _ _ _ _

theorem append_left_inj {p x y : String} : p ++ x = p ++ y ↔ x = y := by
  rw [← String.toList_inj, String.toList_append, String.toList_append, List.append_right_inj,
    String.toList_inj]

/-- Two requests of different senders share a nonce key exactly when the fields
of one run into those of the other. -/
theorem nonceCacheKey_eq_iff {a b : SignedRequest}
    (h : a.federationId ≠ b.federationId ∨ a.sourceNodeId ≠ b.sourceNodeId) :
    nonceCacheKey a = nonceCacheKey b ↔ RunsInto a b ∨ RunsInto b a := by
  have hkey : nonceCacheKey a = nonceCacheKey b ↔
      a.federationId ++ ":" ++ afterFederation a = b.federationId ++ ":" ++ afterFederation b := by
    rw [nonceCacheKey_eq, nonceCacheKey_eq, append_left_inj]
  rw [hkey, separated_eq_iff]
  constructor
  · rintro (⟨hfed, hafter⟩ | hab | hba)
    · have hsource : a.sourceNodeId ≠ b.sourceNodeId := h.resolve_left (not_not.mpr hfed)
      rcases separated_eq_iff.mp hafter with ⟨he, _⟩ | hab | hba
      · exact absurd he hsource
      · exact .inl (.inr ⟨hfed, hab⟩)
      · exact .inr (.inr ⟨hfed.symm, hba⟩)
    · exact .inl (.inl hab)
    · exact .inr (.inl hba)
  · rintro ((hab | ⟨hfed, hab⟩) | (hba | ⟨hfed, hba⟩))
    · exact .inr (.inl hab)
    · exact .inl ⟨hfed, separated_eq_iff.mpr (.inr (.inl hab))⟩
    · exact .inr (.inr hba)
    · exact .inl ⟨hfed.symm, separated_eq_iff.mpr (.inr (.inr hba))⟩

/-- Ids without colons never run into each other. -/
theorem not_runsInto_of_no_colon {a b : SignedRequest} (hf : ':' ∉ b.federationId.toList)
    (hs : ':' ∉ b.sourceNodeId.toList) : ¬ RunsInto a b := by
  rintro (⟨w, he, _⟩ | ⟨_, w, he, _⟩)
  · exact hf (by rw [he]; simp)
  · exact hs (by rw [he]; simp)

/-- An envelope as it is put to `verify_signed_request` at some time. -/
structure Presented where
  env : SignedRequest
  jwk : JWK
  req : Inbound
  now : DateTime

namespace Presented

variable (P : Platform) (others : (c : Call) → Resp c)

/-- Validly signed, fresh and addressed to the node that asks; replays are looked for. -/
def Valid (p : Presented) : Prop :=
  p.req.cache = true ∧ checkSignedRequestAt P p.env p.jwk p.req p.now = .ok (true, "ok")

def verify (p : Presented) (nonces : List (Claim String Int)) :
    Except Exc (Bool × String) × List (Claim String Int) :=
  (verifySignedRequest P p.env p.jwk p.req).run.eval
  (ledgerCache.handle others p.now p.now.instant) nonces

/-- Accepting the first never makes the second a replay, whatever the cache holds. -/
def SparesNonce (first second : Presented) : Prop :=
  ∀ nonces, (first.verify P others nonces).1 = .ok (true, "ok") →
    (second.verify P others (first.verify P others nonces).2).1 = .ok (false, "replay") →
    (second.verify P others nonces).1 = .ok (false, "replay")

variable {P others}

def claim (p : Presented) : Claim String Int :=
  ⟨nonceCacheKey p.env, p.now.instant, p.now.instant + p.req.maxSkewSeconds * 1000000⟩

theorem verify_of_valid {p : Presented} (h : p.Valid P) (nonces : List (Claim String Int)) :
    p.verify P others nonces =
      (.ok (claimResult (Ledger.claim nonces p.claim).1), (Ledger.claim nonces p.claim).2) := by
  obtain ⟨hcache, hcheck⟩ := h
  rw [verify, verifySignedRequest_run, Task.eval_call]
  have hnow : (ledgerCache.handle others p.now p.now.instant ⟨.inbound, .utcNow⟩ nonces).1 =
      p.now := rfl
  rw [hnow, hcheck, claimNonce, if_pos hcache]
  rfl

theorem verify_accepted_iff {p : Presented} (h : p.Valid P) (nonces : List (Claim String Int)) :
    (p.verify P others nonces).1 = .ok (true, "ok") ↔
      Ledger.granted nonces p.claim.key p.claim.claimedAt = true := by
  rw [verify_of_valid h]
  cases hg : Ledger.granted nonces p.claim.key p.claim.claimedAt with
  | true => simp [Ledger.claim_granted hg, claimResult]
  | false => simp [Ledger.claim_refused hg, claimResult]

theorem verify_replay_iff {p : Presented} (h : p.Valid P) (nonces : List (Claim String Int)) :
    (p.verify P others nonces).1 = .ok (false, "replay") ↔
      Ledger.granted nonces p.claim.key p.claim.claimedAt = false := by
  rw [verify_of_valid h]
  cases hg : Ledger.granted nonces p.claim.key p.claim.claimedAt with
  | true => simp [Ledger.claim_granted hg, claimResult]
  | false => simp [Ledger.claim_refused hg, claimResult]

theorem not_sparesNonce {first second : Presented} (hfirst : first.Valid P)
    (hsecond : second.Valid P) (hkey : nonceCacheKey first.env = nonceCacheKey second.env)
    (hlive : second.now.instant < first.now.instant + first.req.maxSkewSeconds * 1000000) :
    ¬ SparesNonce P others first second := by
  intro h
  have hfree : Ledger.granted [] first.claim.key first.claim.claimedAt = true := rfl
  have hafter : (first.verify P others []).2 = [first.claim] := by
    rw [verify_of_valid hfirst, Ledger.claim_granted hfree]
  have hsame : second.claim.key = first.claim.key := hkey.symm
  have hrefused : Ledger.granted [first.claim] second.claim.key second.claim.claimedAt = false := by
    rw [hsame]
    exact Ledger.refused_of_live List.mem_cons_self hlive
  have hreplay := h [] ((verify_accepted_iff hfirst []).mpr hfree)
    (by rw [hafter]; exact (verify_replay_iff hsecond _).mpr hrefused)
  exact absurd ((verify_replay_iff hsecond []).mp hreplay) (by simp [Ledger.granted])

/-- Of two valid requests of different senders the first never makes the second
a replay exactly when their ids and nonces do not run into each other, or the
second comes after the first one's claim has lapsed. -/
theorem sparesNonce_iff {first second : Presented} (hfirst : first.Valid P)
    (hsecond : second.Valid P) (hsender : first.env.federationId ≠ second.env.federationId ∨
      first.env.sourceNodeId ≠ second.env.sourceNodeId) :
    SparesNonce P others first second ↔
      ¬ (RunsInto first.env second.env ∨ RunsInto second.env first.env) ∨
        first.now.instant + first.req.maxSkewSeconds * 1000000 ≤ second.now.instant := by
  rw [← nonceCacheKey_eq_iff hsender]
  constructor
  · intro h
    by_contra hnot
    obtain ⟨hkey, hlive⟩ := not_or.mp hnot
    exact not_sparesNonce hfirst hsecond (not_not.mp hkey) (not_le.mp hlive) h
  · intro hcond nonces haccept hreplay
    have hgranted := (verify_accepted_iff hfirst nonces).mp haccept
    rw [verify_of_valid hfirst, Ledger.claim_granted hgranted] at hreplay
    refine (verify_replay_iff hsecond nonces).mpr (Bool.eq_false_iff.mpr fun hfree => ?_)
    have hrefused := (verify_replay_iff hsecond _).mp hreplay
    refine absurd (Ledger.granted_iff.mpr ?_) (Bool.eq_false_iff.mp hrefused)
    refine List.forall_mem_cons.mpr ⟨fun hkey => ?_, Ledger.granted_iff.mp hfree⟩
    exact hcond.resolve_left (not_not.mpr hkey)

end Presented

def shadowRequest : SignedRequest :=
  { getMembersRequest with
    requestId := "r-2"
    nonce := "beta:n1"
    signature :=
      some { keyId := "k1", sig :=
        "7nGQ6uiMGGX-dxCKFZ8zxyuW_dHNqi5U0WYrIgmDIvtjM5AWy5HQf2tlyDQ63Uka-Boz0SylMMFziA1ryCLqDA" } }

def shadowedRequest : SignedRequest :=
  { getMembersRequest with
    sourceNodeId := "alpha:beta"
    signature :=
      some { keyId := "k1", sig :=
        "dkVKh3yRi3OnY5UTWSPB8vPTdfLF80xxS5IYXjAnwV1xSMvNGTbA04IN1HUh9dkuVOj77zUYfbzn8Hlar5lgBg" } }

def shadowPlatform : Platform :=
  knows
    [(malloryKey,
      "7nGQ6uiMGGX-dxCKFZ8zxyuW_dHNqi5U0WYrIgmDIvtjM5AWy5HQf2tlyDQ63Uka-Boz0SylMMFziA1ryCLqDA",
    ["\x7b\"body_sha256\":\"sha256:e3b0c44298fc1c149afbf4c8996fb92427ae41e4649b934ca495991b7852b855\",",
      "\"federation_id\":\"fed\",\"method\":\"GET\",\"nonce\":\"beta:n1\",\"path\":\"/members\",",
      "\"request_id\":\"r-2\",\"source_manifest_revision\":3,\"source_node_id\":\"alpha\",",
      "\"target_node_id\":\"beta\",\"timestamp\":\"2026-01-01T00:00:00Z\"\x7d"]),
   (alphaKey,
    "dkVKh3yRi3OnY5UTWSPB8vPTdfLF80xxS5IYXjAnwV1xSMvNGTbA04IN1HUh9dkuVOj77zUYfbzn8Hlar5lgBg",
      ["\x7b\"body_sha256\":\"sha256:e3b0c44298fc1c149afbf4c8996fb92427ae41e4649b934ca495991b7852b855\",",
      "\"federation_id\":\"fed\",\"method\":\"GET\",\"nonce\":\"n1\",\"path\":\"/members\",",
      "\"request_id\":\"r-1\",\"source_manifest_revision\":3,\"source_node_id\":\"alpha:beta\",",
      "\"target_node_id\":\"beta\",\"timestamp\":\"2026-01-01T00:00:00Z\"\x7d"])]

def shadow (now : DateTime) : Presented := ⟨shadowRequest, malloryKey, cachedInbound, now⟩

def shadowed (now : DateTime) : Presented := ⟨shadowedRequest, alphaKey, cachedInbound, now⟩

theorem shadowRequest_verified :
    checkSignedRequestAt shadowPlatform shadowRequest malloryKey cachedInbound newYear2026 =
      .ok (true, "ok") := by
  decide +kernel

theorem shadowedRequest_verified :
    checkSignedRequestAt shadowPlatform shadowedRequest alphaKey cachedInbound newYear2026 =
      .ok (true, "ok") := by
  decide +kernel

theorem shadow_valid {now : DateTime}
    (hnow : ((now.diffMicros newYear2026).natAbs : Int) ≤ 300 * 1000000) :
    (shadow now).Valid shadowPlatform :=
  ⟨rfl, checkSignedRequestAt_of_fresh shadowRequest_verified
    ((DateTime.abs_totalSeconds_le_iff (s := 300) (by decide)).mpr hnow)⟩

theorem shadowed_valid {now : DateTime}
    (hnow : ((now.diffMicros newYear2026).natAbs : Int) ≤ 300 * 1000000) :
    (shadowed now).Valid shadowPlatform :=
  ⟨rfl, checkSignedRequestAt_of_fresh shadowedRequest_verified
    ((DateTime.abs_totalSeconds_le_iff (s := 300) (by decide)).mpr hnow)⟩

theorem shadowRequest_runsInto : RunsInto shadowRequest shadowedRequest :=
  .inr ⟨rfl, "beta", rfl, rfl⟩

def silentAnswers (c : Call) : Resp c := (silentWorld.handle c emptyNode).1

/-- Once `alpha`'s request is accepted, `alpha:beta`'s is a replay. -/
theorem shadow_takes_nonce :
    (shadow newYear2026).Valid shadowPlatform ∧ (shadowed newYear2026).Valid shadowPlatform ∧
      shadowRequest.sourceNodeId ≠ shadowedRequest.sourceNodeId ∧
      ¬ Presented.SparesNonce shadowPlatform silentAnswers (shadow newYear2026)
        (shadowed newYear2026) := by
  have hsender : shadowRequest.sourceNodeId ≠ shadowedRequest.sourceNodeId := by decide
  have hfirst := @shadow_valid newYear2026 (by decide)
  have hsecond := @shadowed_valid newYear2026 (by decide)
  refine ⟨hfirst, hsecond, hsender, Presented.not_sparesNonce hfirst hsecond ?_ (by decide)⟩
  exact (nonceCacheKey_eq_iff (.inr hsender)).mpr (.inl shadowRequest_runsInto)

theorem lapsed_shadow_spares :
    Presented.SparesNonce shadowPlatform silentAnswers (shadow behind) (shadowed ahead) := by
  have hsender : shadowRequest.sourceNodeId ≠ shadowedRequest.sourceNodeId := by decide
  exact (Presented.sparesNonce_iff (shadow_valid (by decide)) (shadowed_valid (by decide))
    (.inr hsender)).mpr (.inr (by decide))

end Federlet
