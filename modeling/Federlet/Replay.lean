import Federlet.Authentication

/-! Replay protection over whole runs. The nonce claim lapses `max_skew_seconds`
after the acceptance, while the envelope stays fresh until `max_skew_seconds`
after its own timestamp. -/

namespace Federlet

open Coop

abbrev RequestPool := Pool Call Resp (Except Exc (Bool × String)) NodeState

/-- Interleaved calls of `verify_signed_request` on one envelope, one cache. -/
def RequestStep (P : Platform) (env : SignedRequest) (jwk : JWK) (req : Inbound) :
    RequestPool → Act Call Resp → RequestPool → Prop :=
  Pool.Step Reliable Passes (fun t => t = (verifySignedRequest P env jwk req).run)

def Accepted (w : RequestPool) (i : Nat) : Prop := w.tasks i = some (.done (.ok (true, "ok")))

def AtMostOnce (w : RequestPool) : Prop := ∀ i j, Accepted w i → Accepted w j → i = j

def grantedSince (start s : NodeState) : List (Claim String Int) :=
  s.nonces.take (s.nonces.length - start.nonces.length)

/-- Every claim granted since the run began is less than `max_skew_seconds` old. -/
def Live (start : NodeState) (req : Inbound) (s : NodeState) : Prop :=
  ∀ c ∈ grantedSince start s, s.clock.instant < c.claimedAt + req.maxSkewSeconds * 1000000

/-- A nonce is claimed while the claims granted before are live. -/
def ClaimsLive (start : NodeState) (req : Inbound) (w : RequestPool) (a : Act Call Resp) : Prop :=
  match a with
  | .call _ ⟨_, .nonceSet _ _⟩ _ => Live start req w.shared
  | _ => True

def claimResult (claimed : Bool) :
    Bool × String := if claimed then (true, "ok") else (false, "replay")

def claiming (env : SignedRequest) (req : Inbound) : Task Call Resp (Except Exc (Bool × String)) :=
  .call ⟨.inbound, .nonceSet (nonceCacheKey env) req.maxSkewSeconds⟩ fun r =>
    .done (Except.map claimResult r)

/-- Where a call of `verify_signed_request` can stand. -/
inductive Progress (P : Platform) (env : SignedRequest) (jwk : JWK) (req : Inbound) :
    Task Call Resp (Except Exc (Bool × String)) → Prop where
  | called : Progress P env jwk req (verifySignedRequest P env jwk req).run
  | checked : Progress P env jwk req (claiming env req)
  | done (r : Except Exc (Bool × String)) : Progress P env jwk req (.done r)

theorem claimNonce_cases {env : SignedRequest} {req : Inbound} (hcache : req.cache = true)
    (verdict : Except Exc (Bool × String)) :
    claimNonce env req verdict = claiming env req ∨
      ∃ r, claimNonce env req verdict = .done r ∧ r ≠ .ok (true, "ok") := by
  rcases verdict with e | ⟨ok, reason⟩
  · exact .inr ⟨.error e, rfl, by simp⟩
  cases ok with
  | false => exact .inr ⟨.ok (false, reason), rfl, by simp⟩
  | true =>
    refine .inl ?_
    simp only [claimNonce, hcache, ↓reduceIte, claiming]
    rfl

section Run

variable {P : Platform} {env : SignedRequest} {jwk : JWK} {req : Inbound}

/-- What a step does to the acceptances and the cache. -/
inductive RequestEffect (env : SignedRequest) (req : Inbound) (w : RequestPool) (a : Act Call Resp)
    (w' : RequestPool) : Prop where
  | idle (hacc : ∀ i, Accepted w' i ↔ Accepted w i) (hn : w'.shared.nonces = w.shared.nonces)
      (hclock : w.shared.clock.instant ≤ w'.shared.clock.instant)
      (hlive : ∀ start, ClaimsLive start req w a)
  | refused (hlive : ∀ start, ClaimsLive start req w a ↔ Live start req w.shared)
      (hacc : ∀ i, Accepted w' i ↔ Accepted w i) (hshared : w'.shared = w.shared)
      (hg : Ledger.granted w.shared.nonces (nonceCacheKey env) w.shared.clock.instant = false)
  | granted (hlive : ∀ start, ClaimsLive start req w a ↔ Live start req w.shared) (i : Nat)
      (hi : ¬ Accepted w i) (hacc : ∀ j, Accepted w' j ↔ Accepted w j ∨ j = i)
      (hg : Ledger.granted w.shared.nonces (nonceCacheKey env) w.shared.clock.instant = true)
        (hshared : w'.shared = { w.shared with nonces := ⟨nonceCacheKey env, w.shared.clock.instant,
          w.shared.clock.instant + req.maxSkewSeconds * 1000000⟩ :: w.shared.nonces })

theorem progress_setTask {w : RequestPool} {i : Nat}
    {t : Task Call Resp (Except Exc (Bool × String))}
    (hp : ∀ j u, w.tasks j = some u → Progress P env jwk req u) (ht : Progress P env jwk req t) :
    ∀ j u, w.setTask i t j = some u → Progress P env jwk req u := by
  intro j u hu
  by_cases hj : j = i
  · subst hj
    rw [Pool.setTask_self, Option.some.injEq] at hu
    exact hu ▸ ht
  · rw [Pool.setTask_ne w t hj] at hu
    exact hp j u hu

theorem accepted_setTask_of_ne {w : RequestPool} {i : Nat}
    {t : Task Call Resp (Except Exc (Bool × String))} {s : NodeState} (hi : ¬ Accepted w i)
    (ht : t ≠ .done (.ok (true, "ok"))) (j : Nat) :
    Accepted { w with shared := s, tasks := w.setTask i t } j ↔ Accepted w j := by
  by_cases hj : j = i
  · subst hj
    have hl : ¬ Accepted { w with shared := s, tasks := w.setTask j t } j := by
      simpa [Accepted] using ht
    exact iff_of_false hl hi
  · simp only [Accepted, Pool.setTask_ne w t hj]

theorem accepted_setTask {w : RequestPool} {i : Nat} {s : NodeState} (j : Nat) :
    Accepted { w with shared := s, tasks := w.setTask i (.done (.ok (true, "ok"))) } j ↔
      Accepted w j ∨ j = i := by
  by_cases hj : j = i
  · subst hj
    simp [Accepted]
  · simp only [Accepted, Pool.setTask_ne w _ hj, hj, or_false]

theorem not_accepted_of_task {w : RequestPool} {i : Nat}
    {t : Task Call Resp (Except Exc (Bool × String))} (hi : w.tasks i = some t)
    (ht : t ≠ .done (.ok (true, "ok"))) : ¬ Accepted w i := by
  intro h
  rw [Accepted, hi, Option.some.injEq] at h
  exact ht h

theorem effect_of_clock {w : RequestPool} {i : Nat} (hcache : req.cache = true)
    (hi : w.tasks i = some (verifySignedRequest P env jwk req).run)
    (verdict : Except Exc (Bool × String)) :
    Progress P env jwk req (claimNonce env req verdict) ∧
      ∀ j, Accepted { w with tasks := w.setTask i (claimNonce env req verdict) } j ↔
      Accepted w j := by
  have hne : ¬ Accepted w i := by
    refine not_accepted_of_task hi ?_
    rw [verifySignedRequest_run]
    simp
  rcases claimNonce_cases hcache verdict with h | ⟨r, h, hr⟩
  · rw [h]
    exact ⟨.checked, accepted_setTask_of_ne hne (by simp [claiming])⟩
  · rw [h]
    exact ⟨.done r, accepted_setTask_of_ne hne (by simpa using hr)⟩

theorem effect_of_claim {w : RequestPool} {i : Nat} {r : Except Exc Bool} {s' : NodeState}
    (hi : w.tasks i = some (claiming env req))
    (hs : Reliable ⟨.inbound, .nonceSet (nonceCacheKey env) req.maxSkewSeconds⟩ w.shared r s') :
    RequestEffect env req w
      (.call i ⟨.inbound, .nonceSet (nonceCacheKey env) req.maxSkewSeconds⟩ r)
      { w with shared := s', tasks := w.setTask i (.done (Except.map claimResult r)) } := by
  have hne := not_accepted_of_task hi (by simp [claiming])
  obtain ⟨hdoes, hraised⟩ := hs
  rcases hdoes with ⟨e, rfl, _⟩ | ⟨rfl, rfl⟩
  · exact absurd ⟨e, rfl⟩ hraised
  cases hg : Ledger.granted w.shared.nonces (nonceCacheKey env) w.shared.clock.instant with
  | false =>
    have hset : w.shared.nonceSet (nonceCacheKey env) req.maxSkewSeconds = (false, w.shared) := by
      simp only [NodeState.nonceSet, Ledger.claim, hg, Bool.false_eq_true, ↓reduceIte]
    rw [hset]
    exact .refused (fun _ => Iff.rfl)
      (accepted_setTask_of_ne hne (by simp [Except.map, claimResult])) rfl hg
  | true =>
    have hset : w.shared.nonceSet (nonceCacheKey env) req.maxSkewSeconds = (true, { w.shared with
        nonces := ⟨nonceCacheKey env, w.shared.clock.instant,
          w.shared.clock.instant + req.maxSkewSeconds * 1000000⟩ :: w.shared.nonces }) := by
      simp only [NodeState.nonceSet, Ledger.claim, hg, ↓reduceIte]
    rw [hset]
    exact .granted (fun _ => Iff.rfl) i hne accepted_setTask hg rfl

theorem request_effect (hcache : req.cache = true) {w w' : RequestPool} {a : Act Call Resp}
    (hp : ∀ i t, w.tasks i = some t → Progress P env jwk req t)
    (hs : RequestStep P env jwk req w a w') :
    (∀ i t, w'.tasks i = some t → Progress P env jwk req t) ∧ RequestEffect env req w a w' := by
  cases hs with
  | @spawn i t hi ht =>
    subst ht
    have hne : ¬ Accepted w i := by simp [Accepted, hi]
    have hrun := verifySignedRequest_run P env jwk req
    exact ⟨progress_setTask hp .called, .idle (accepted_setTask_of_ne hne (by simp [hrun])) rfl
      (Int.le_refl _) (fun _ => trivial)⟩
  | @call i e k r s' hi hs =>
    generalize ht : Task.call e k = t at hi
    have hcall := hp i t hi
    cases hcall with
    | called =>
      rw [verifySignedRequest_run] at ht
      cases ht
      obtain ⟨⟨_, rfl⟩, _⟩ := hs
      obtain ⟨hprogress, hacc⟩ := effect_of_clock hcache hi (checkSignedRequestAt P env jwk req r)
      exact ⟨progress_setTask hp hprogress, .idle hacc rfl (Int.le_refl _) (fun _ => trivial)⟩
    | checked =>
      cases ht
      exact ⟨progress_setTask hp (.done _), effect_of_claim hi hs⟩
    | done r => cases ht
  | @acquire i k hi hf =>
    generalize ht : Task.acquire k = t at hi
    cases hp i t hi with
    | called => rw [verifySignedRequest_run] at ht; cases ht
    | checked => cases ht
    | done r => cases ht
  | @release i k hi hh =>
    generalize ht : Task.release k = t at hi
    cases hp i t hi with
    | called => rw [verifySignedRequest_run] at ht; cases ht
    | checked => cases ht
    | done r => cases ht
  | background hb =>
    obtain ⟨t, ht, rfl⟩ := hb
    exact ⟨hp, .idle (fun _ => Iff.rfl) rfl ht (fun _ => trivial)⟩

/-- A run before its first acceptance, and after it for as long as there is no
second one. -/
inductive Phase (start : NodeState) (env : SignedRequest) (req : Inbound) (w : RequestPool) :
    Prop where
  | unclaimed (hn : w.shared.nonces = start.nonces) (hacc : ∀ i, ¬ Accepted w i)
  | claimed (c : Claim String Int) (i : Nat) (hn : w.shared.nonces = c :: start.nonces)
      (hkey : c.key = nonceCacheKey env)
      (hlapses : c.lapses = c.claimedAt + req.maxSkewSeconds * 1000000)
      (hclock : c.claimedAt ≤ w.shared.clock.instant)
      (hold : ∀ c' ∈ start.nonces, c'.key = nonceCacheKey env → c'.lapses ≤ c.claimedAt)
      (hacc : ∀ j, Accepted w j ↔ j = i)

theorem Phase.atMostOnce {start : NodeState} {w : RequestPool} (h : Phase start env req w) :
    AtMostOnce w := by
  intro i j hi hj
  cases h with
  | unclaimed _ hacc => exact absurd hi (hacc i)
  | claimed c k _ _ _ _ _ hacc => rw [(hacc i).mp hi, (hacc j).mp hj]

theorem grantedSince_append {start s : NodeState} {new : List (Claim String Int)}
    (h : s.nonces = new ++ start.nonces) : grantedSince start s = new := by
  rw [grantedSince, h, List.length_append, Nat.add_sub_cancel, List.take_left]

theorem Phase.live_of_unclaimed {start : NodeState} {w : RequestPool}
    (hn : w.shared.nonces = start.nonces) : Live start req w.shared := by
  have hnew := @grantedSince_append start w.shared [] hn
  simp [Live, hnew]

theorem granted_iff_not_live {start : NodeState} {w : RequestPool} {c : Claim String Int}
    (hn : w.shared.nonces = c :: start.nonces) (hkey : c.key = nonceCacheKey env)
    (hlapses : c.lapses = c.claimedAt + req.maxSkewSeconds * 1000000)
    (hclock : c.claimedAt ≤ w.shared.clock.instant)
    (hold : ∀ c' ∈ start.nonces, c'.key = nonceCacheKey env → c'.lapses ≤ c.claimedAt) :
    Ledger.granted w.shared.nonces (nonceCacheKey env) w.shared.clock.instant = true ↔
      ¬ Live start req w.shared := by
  have hnew := @grantedSince_append start w.shared [c] hn
  have hlive : Live start req w.shared ↔ w.shared.clock.instant < c.lapses := by
    simp [Live, hnew, hlapses]
  rw [hlive, Int.not_lt, Ledger.granted_iff, hn]
  constructor
  · intro h
    exact h c List.mem_cons_self hkey
  · intro h
    refine List.forall_mem_cons.mpr ⟨fun _ => h, ?_⟩
    intro c' hc' hk
    exact (hold c' hc' hk).trans hclock

theorem Phase.step {start : NodeState} {w w' : RequestPool} {a : Act Call Resp}
    (hphase : Phase start env req w) (he : RequestEffect env req w a w') :
    (AtMostOnce w' ↔ ClaimsLive start req w a) ∧ (AtMostOnce w' → Phase start env req w') := by
  cases hphase with
  | unclaimed hn hnone =>
    have hlive := @Phase.live_of_unclaimed req start w hn
    cases he with
    | idle hacc hn' hclock hl =>
      have hphase : Phase start env req w' :=
        .unclaimed (hn'.trans hn) (fun i hi => hnone i ((hacc i).mp hi))
      exact ⟨iff_of_true hphase.atMostOnce (hl start), fun _ => hphase⟩
    | refused hl hacc hshared hg =>
      have hphase : Phase start env req w' :=
        .unclaimed (by rw [hshared, hn]) (fun i hi => hnone i ((hacc i).mp hi))
      exact ⟨iff_of_true hphase.atMostOnce ((hl start).mpr hlive), fun _ => hphase⟩
    | granted hl i hi hacc hg hshared =>
      rw [hn, Ledger.granted_iff] at hg
      have hphase : Phase start env req w' := by
        refine .claimed _ i (by rw [hshared, hn]) rfl rfl (by rw [hshared]) hg ?_
        intro j
        rw [hacc]
        exact or_iff_right (hnone j)
      exact ⟨iff_of_true hphase.atMostOnce ((hl start).mpr hlive), fun _ => hphase⟩
  | claimed c k hn hkey hlapses hclock hold honly =>
    have hagain := granted_iff_not_live hn hkey hlapses hclock hold
    cases he with
    | idle hacc hn' hclock' hl =>
      have hphase : Phase start env req w' :=
        .claimed c k (hn'.trans hn) hkey hlapses (hclock.trans hclock') hold
          (fun j => (hacc j).trans (honly j))
      exact ⟨iff_of_true hphase.atMostOnce (hl start), fun _ => hphase⟩
    | refused hl hacc hshared hg =>
      have hlive : Live start req w.shared := by
        by_contra h
        exact absurd (hagain.mpr h) (by simp [hg])
      have hphase : Phase start env req w' :=
        .claimed c k (by rw [hshared, hn]) hkey hlapses (by rw [hshared]; exact hclock) hold
          (fun j => (hacc j).trans (honly j))
      exact ⟨iff_of_true hphase.atMostOnce ((hl start).mpr hlive), fun _ => hphase⟩
    | granted hl i hi hacc hg hshared =>
      have htwice : ¬ AtMostOnce w' := by
        intro h
        have hk : Accepted w k := (honly k).mpr rfl
        have he := h i k ((hacc i).mpr (.inr rfl)) ((hacc k).mpr (.inl hk))
        exact hi (he ▸ hk)
      have hdead : ¬ ClaimsLive start req w a := by
        rw [hl start]
        exact hagain.mp hg
      exact ⟨iff_of_false htwice hdead, fun h => absurd h htwice⟩

/-- In every run of verifications of one envelope that share a cache, at most
one is accepted up to the first step that breaks it, and that step claims the
nonce once the claim of the accepted call has lapsed. -/
theorem atMostOnce_iff_claimsLive (hcache : req.cache = true) {start : NodeState}
    {history : List (Act Call Resp × RequestPool)}
    (hrun : Along (RequestStep P env jwk req) (Pool.start start) history) :
    Along (fun _ _ w' => AtMostOnce w') (Pool.start start) history ↔
      Along (fun w a _ => ClaimsLive start req w a) (Pool.start start) history := by
  let Inv (w : RequestPool) : Prop :=
    (∀ i t, w.tasks i = some t → Progress P env jwk req t) ∧ Phase start env req w
  have hstart : Inv (Pool.start start) :=
    ⟨fun _ _ h => absurd h (by simp [Pool.start]), .unclaimed rfl
      (fun _ h => by simp [Accepted, Pool.start] at h)⟩
  refine Along.iff_of_inv ?_ hstart hrun
  rintro w a w' ⟨hprogress, hphase⟩ hs
  obtain ⟨hprogress', he⟩ := request_effect hcache hprogress hs
  have hstep := hphase.step he
  exact ⟨hstep.1, fun h => ⟨hprogress', hstep.2 h⟩⟩

end Run

section Replays

variable (P : Platform) (env : SignedRequest) (jwk : JWK) (req : Inbound)

def verified (w : RequestPool) (i : Nat) : RequestPool :=
  { w with
    shared := (w.shared.nonceSet (nonceCacheKey env) req.maxSkewSeconds).2
    tasks := w.setTask i
      (.done (.ok (claimResult (w.shared.nonceSet (nonceCacheKey env) req.maxSkewSeconds).1))) }

def verification (w : RequestPool) (i : Nat) : List (Act Call Resp × RequestPool) :=
  [(.spawn i, { w with tasks := w.setTask i (verifySignedRequest P env jwk req).run }),
   (.call i ⟨.inbound, .utcNow⟩ w.shared.clock, { w with tasks := w.setTask i (claiming env req) }),
   (.call i ⟨.inbound, .nonceSet (nonceCacheKey env) req.maxSkewSeconds⟩
      (.ok (w.shared.nonceSet (nonceCacheKey env) req.maxSkewSeconds).1), verified env req w i)]

variable {P env jwk req}

theorem along_verification {w : RequestPool} {i : Nat} {rest : List (Act Call Resp × RequestPool)}
    (hcache : req.cache = true) (hi : w.tasks i = none)
    (hv : checkSignedRequestAt P env jwk req w.shared.clock = .ok (true, "ok"))
    (hrest : Along (RequestStep P env jwk req) (verified env req w i) rest) :
    Along (RequestStep P env jwk req) w (verification P env jwk req w i ++ rest) := by
  refine ⟨.spawn hi rfl, ?_, ?_, hrest⟩
  · have hread := @Pool.Step.resume _ _ _ _ Reliable Passes
      (fun t => t = (verifySignedRequest P env jwk req).run) w i _ _ _ _ _
      (verifySignedRequest_run P env jwk req) ⟨⟨rfl, rfl⟩, id⟩
    simp only [hv, claimNonce, hcache, ↓reduceIte] at hread
    exact hread
  · exact Pool.Step.resume rfl ⟨.inr ⟨rfl, rfl⟩, by simp [storeRaised]⟩

end Replays

theorem checkSignedRequestAt_of_fresh {P : Platform} {env : SignedRequest} {jwk : JWK}
    {req : Inbound} {now now' : DateTime} {reason : String}
    (h : checkSignedRequestAt P env jwk req now = .ok (true, reason))
    (hnow : |now'.totalSeconds env.timestamp| ≤ req.maxSkewSeconds) :
    checkSignedRequestAt P env jwk req now' = .ok (true, "ok") := by
  obtain ⟨_, hreason, hv⟩ := checkSignedRequestAt_true_iff.mp h
  have hfits := envelopeReason_none_iff.mp hreason
  have hfits' : EnvelopeFits P env req now' :=
    ⟨hfits.signed, hfits.target, hfits.method, hfits.path, hfits.size, hfits.body, hnow⟩
  exact checkSignedRequestAt_true_iff.mpr ⟨rfl, envelopeReason_none_iff.mpr hfits', hv⟩

theorem checkSignedRequestAt_cache {P : Platform} {env : SignedRequest} {jwk : JWK} {req : Inbound}
    {now : DateTime} {cache : Bool} :
    checkSignedRequestAt P env jwk { req with cache := cache } now = checkSignedRequestAt P env jwk
      req now := rfl

def cachedInbound : Inbound := { alphaInbound with cache := true }

def behind : DateTime := .utc 63902822200000000 (by decide)

def ahead : DateTime := .utc 63902822600000000 (by decide)

def nodeAt (clock : DateTime) : NodeState := { emptyNode with clock := clock }

theorem membersRequest_checks {now : DateTime}
    (hnow : ((now.diffMicros newYear2026).natAbs : Int) ≤ 300 * 1000000) :
    checkSignedRequestAt (exchange getMembersRequest) getMembersRequest alphaKey cachedInbound now =
      .ok (true, "ok") := by
  rw [cachedInbound, checkSignedRequestAt_cache]
  exact checkSignedRequestAt_of_fresh membersRequest_verified
    ((DateTime.abs_totalSeconds_le_iff (s := 300) (by decide)).mpr hnow)

def firstVerification (clock : DateTime) : List (Act Call Resp × RequestPool) :=
  verification (exchange getMembersRequest) getMembersRequest alphaKey cachedInbound
    (Pool.start (nodeAt clock)) 0

def afterFirst (clock : DateTime) : RequestPool :=
  verified getMembersRequest cachedInbound (Pool.start (nodeAt clock)) 0

/-- The request is verified again once the clock has moved on. -/
def replayRun (first second : DateTime) : List (Act Call Resp × RequestPool) :=
  let w :
    RequestPool := { afterFirst first with shared :=
      { (afterFirst first).shared with clock := second } }
  firstVerification first ++ (.background, w) ::
    verification (exchange getMembersRequest) getMembersRequest alphaKey cachedInbound w 1 ++ []

theorem replayRun_along {first second : DateTime} (hle : first.instant ≤ second.instant)
    (hfirst : ((first.diffMicros newYear2026).natAbs : Int) ≤ 300 * 1000000)
    (hsecond : ((second.diffMicros newYear2026).natAbs : Int) ≤ 300 * 1000000) :
    Along (RequestStep (exchange getMembersRequest) getMembersRequest alphaKey cachedInbound)
      (Pool.start (nodeAt first)) (replayRun first second) := by
  refine along_verification rfl rfl (membersRequest_checks hfirst) ?_
  refine ⟨.background ⟨second, hle, rfl⟩, ?_⟩
  exact along_verification rfl rfl (membersRequest_checks hsecond) trivial

theorem replay_accepted_twice :
    Along (RequestStep (exchange getMembersRequest) getMembersRequest alphaKey cachedInbound)
      (Pool.start (nodeAt behind)) (replayRun behind ahead) ∧
    ∃ x ∈ replayRun behind ahead, ¬ AtMostOnce x.2 := by
  refine ⟨replayRun_along (by decide) (by decide) (by decide), _, List.mem_of_getLast? rfl, ?_⟩
  intro h
  have h0 := h 0 1 rfl rfl
  exact absurd h0 (by decide)

theorem replay_refused :
    Along (fun _ _ w' => AtMostOnce w') (Pool.start (nodeAt newYear2026))
      (replayRun newYear2026 ahead) := by
  refine (atMostOnce_iff_claimsLive rfl (replayRun_along (by decide) (by decide) (by decide))).mpr
    ?_
  refine ⟨trivial, trivial, ?_, trivial, trivial, trivial, ?_, trivial⟩
  · exact fun c hc => nomatch hc
  · intro c hc
    obtain rfl := List.mem_singleton.mp hc
    show ahead.instant < newYear2026.instant + 300 * 1000000
    decide

end Federlet
