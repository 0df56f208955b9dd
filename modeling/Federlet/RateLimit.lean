import Mathlib.Algebra.Order.Ring.Rat
import Mathlib.Order.PartialSups
import Mathlib.Tactic.Linarith
import Federlet.Library.Reservoir
import Federlet.Models

/-! The in-memory token bucket limiter, over exact rationals: what a peer is
answered, call by call. -/

namespace Federlet

/-- `_Bucket` -/
structure TokenBucket where
  tokens : ℚ
  updatedAt : ℚ

structure TokenBucketRateLimiter where
  peerLimits : Dict (Option ManifestLimits)
  buckets : Dict TokenBucket

namespace TokenBucket

def refill (rate : Int) (bucket : TokenBucket) (now : ℚ) : TokenBucket :=
  let elapsed := max 0 (now - bucket.updatedAt)
  if elapsed ≠ 0 then { tokens := min rate (bucket.tokens + elapsed * rate), updatedAt := now }
  else bucket

def spend (bucket : TokenBucket) : Bool × TokenBucket :=
  if bucket.tokens < 1 then (false, bucket) else (true, { bucket with tokens := bucket.tokens - 1 })

end TokenBucket

namespace TokenBucketRateLimiter

def create (peerLimits : Dict (Option ManifestLimits)) :
    TokenBucketRateLimiter := { peerLimits, buckets := Keyed.empty }

def rateOf (limiter : TokenBucketRateLimiter) (peerNodeId : String) : Option Int :=
  match limiter.peerLimits.lookup peerNodeId with
  | some (some limits) => limits.maxOperationRpsPerPeer
  | _ => none

def allow (limiter : TokenBucketRateLimiter) (peerNodeId : String) (now : ℚ) :
    Bool × TokenBucketRateLimiter :=
  match limiter.rateOf peerNodeId with
  | none => (true, limiter)
  | some rate =>
    if rate ≤ 0 then (false, limiter)
    else
      let bucket := (limiter.buckets.lookup peerNodeId).getD { tokens := rate, updatedAt := now }
      let (allowed, bucket) := (bucket.refill rate now).spend
      (allowed, { limiter with buckets := limiter.buckets.upsert (peerNodeId, bucket) })

/-- A sequence of calls, each with the peer and the clock reading, and their answers. -/
def serve (limiter : TokenBucketRateLimiter) (calls : List (String × ℚ)) :
    TokenBucketRateLimiter × List (String × Bool) :=
  calls.foldl (fun (limiter, answers) call =>
    let (allowed, limiter) := limiter.allow call.1 call.2
    (limiter, answers ++ [(call.1, allowed)])) (limiter, [])

end TokenBucketRateLimiter

/-- What concerns one peer in a list of labelled entries. -/
def ofPeer {α : Type} (peer : String) (entries : List (String × α)) : List α :=
  (entries.filter (fun e => e.1 = peer)).map Prod.snd

/-- The largest of the first `k + 1` readings. -/
def peak (readings : List ℚ) (k : ℕ) : ℚ := partialSups (fun i => readings.getD i 0) k

/-- The allowed calls among those from `i` on and before `k`. -/
def allowedIn (answers : List Bool) (i k : ℕ) : ℕ := ((answers.take k).drop i).count true

/-- A peer with the given limit is answered by the windows that end at each call. -/
structure AnswersExactly (rate : Int) (readings : List ℚ) (answers : List Bool) : Prop where
  length : answers.length = readings.length
  allowed_iff : ∀ k < readings.length, answers[k]? = some true ↔
    ∀ i ≤ k, (allowedIn answers i k : ℚ) + 1 ≤ rate + rate * (peak readings k - peak readings i)
  window : ∀ k < readings.length, ∀ i ≤ k,
    (allowedIn answers i (k + 1) : ℚ) ≤ rate + rate * (peak readings k - peak readings i)
  envelope : ∀ k < readings.length,
    (∀ i ≤ k, ((k - i + 1 : ℕ) : ℚ) ≤ rate + rate * (peak readings k - peak readings i)) →
      answers[k]? = some true

namespace TokenBucket

variable {rate : Int} {readings : ℕ → ℚ}

def atCall (rate : Int) (readings : ℕ → ℚ) : ℕ → TokenBucket
  | 0 => { tokens := rate, updatedAt := readings 0 }
  | k + 1 => (atCall rate readings k).spend.2.refill rate (readings (k + 1))

def allowedAt (rate : Int) (readings : ℕ → ℚ) (k : ℕ) : Bool := (atCall rate readings k).spend.1

theorem refill_eq {bucket : TokenBucket} (now : ℚ) (hfull : bucket.tokens ≤ rate) :
    bucket.refill rate now =
      { tokens := min rate (bucket.tokens + rate * (max bucket.updatedAt now - bucket.updatedAt))
        updatedAt := max bucket.updatedAt now } := by
  by_cases hlater : bucket.updatedAt < now
  · have helapsed : max 0 (now - bucket.updatedAt) = now - bucket.updatedAt :=
      max_eq_right (by linarith)
    have hmax : max bucket.updatedAt now = now := max_eq_right hlater.le
    have hne : now - bucket.updatedAt ≠ 0 := by linarith
    simp only [refill, helapsed, hmax, hne, ne_eq, not_false_eq_true, ↓reduceIte, mul_comm]
  · have helapsed : max 0 (now - bucket.updatedAt) = 0 := max_eq_left (by linarith)
    have hmax : max bucket.updatedAt now = bucket.updatedAt := max_eq_left (by linarith)
    simp [refill, helapsed, hmax, hfull]

theorem spend_fst (bucket : TokenBucket) : bucket.spend.1 = true ↔ 1 ≤ bucket.tokens := by
  by_cases h : bucket.tokens < 1 <;> simp [spend, h, not_lt.mp]

theorem spend_snd (bucket : TokenBucket) :
    bucket.spend.2 = { bucket with tokens := bucket.tokens - if bucket.spend.1 then 1 else 0 } := by
  by_cases h : bucket.tokens < 1 <;> simp [spend, h]

theorem partialSups_next (k : ℕ) :
    partialSups readings (k + 1) = max (partialSups readings k) (readings (k + 1)) :=
  partialSups_succ readings k

theorem spend_full {bucket : TokenBucket} (h : bucket.tokens ≤ rate) :
    bucket.spend.2.tokens ≤ rate := by
  rw [spend_snd]
  split_ifs <;> simp only <;> linarith

theorem atCall_full (k : ℕ) : (atCall rate readings k).tokens ≤ rate ∧
    (atCall rate readings k).updatedAt = partialSups readings k := by
  induction k with
  | zero => simp [atCall]
  | succ k ih =>
    have hsame : (atCall rate readings k).spend.2.updatedAt = partialSups readings k := by
      rw [spend_snd, ih.2]
    rw [atCall, refill_eq _ (spend_full ih.1), hsame, partialSups_next]
    exact ⟨min_le_left _ _, rfl⟩

/-- The tokens of a peer are a reservoir: readings flow in, allowed calls draw. -/
theorem atCall_refilled : Reservoir.Refilled (rate : ℚ) (fun k => rate * partialSups readings k)
    (fun k => if allowedAt rate readings k then 1 else 0)
    (fun k => (atCall rate readings k).tokens) := by
  refine ⟨rfl, ?_⟩
  intro k
  obtain ⟨hfull, hupdated⟩ := @atCall_full rate readings k
  have hsame : (atCall rate readings k).spend.2.updatedAt = partialSups readings k := by
    rw [spend_snd, hupdated]
  rw [atCall, refill_eq _ (spend_full hfull), hsame, partialSups_next, spend_snd,
    mul_sub, allowedAt]

theorem atCall_nonneg (hrate : 0 ≤ rate) (k : ℕ) : 0 ≤ (atCall rate readings k).tokens := by
  have hrate' : (0 : ℚ) ≤ rate := by exact_mod_cast hrate
  induction k with
  | zero => exact hrate'
  | succ k ih =>
    have hspent : 0 ≤ (atCall rate readings k).spend.2.tokens := by
      rw [spend_snd]
      by_cases h : (atCall rate readings k).spend.1 = true
      · have hone := (spend_fst _).mp h
        simp only [h, ↓reduceIte]
        linarith
      · simpa [h] using ih
    rw [atCall, refill_eq _ (spend_full (atCall_full k).1)]
    have hgain : 0 ≤ (rate : ℚ) *
        (max (atCall rate readings k).spend.2.updatedAt (readings (k + 1)) -
        (atCall rate readings k).spend.2.updatedAt) :=
      mul_nonneg hrate' (sub_nonneg.mpr (le_max_left _ _))
    exact le_min hrate' (by linarith)

theorem drawn_le (hrate : 0 ≤ rate) (k : ℕ) :
    (if allowedAt rate readings k then 1 else 0) ≤ (atCall rate readings k).tokens := by
  by_cases h : allowedAt rate readings k = true
  · rw [if_pos h]
    exact (spend_fst _).mp h
  · rw [if_neg h]
    exact atCall_nonneg hrate k

theorem atCall_congr {readings' : ℕ → ℚ} {k : ℕ} (h : ∀ i ≤ k, readings i = readings' i) :
    atCall rate readings k = atCall rate readings' k := by
  induction k with
  | zero => rw [atCall, atCall, h 0 le_rfl]
  | succ k ih => rw [atCall, atCall, h (k + 1) le_rfl, ih fun i hi => h i (by omega)]

end TokenBucket

theorem Dict.lookup_upsert {β : Type} (d : Dict β) (name k : String) (b : β) :
    Dict.lookup (d.upsert (name, b)) k = if name = k then some b else d.lookup k := by
  rw [Dict.lookup, Keyed.get_upsert]
  split_ifs <;> rfl

section Serve

open TokenBucketRateLimiter

variable {limiter : TokenBucketRateLimiter} {peer : String} {calls : List (String × ℚ)}
  {call : String × ℚ}

theorem serve_snoc : limiter.serve (calls ++ [call]) =
    (((limiter.serve calls).1.allow call.1 call.2).2,
      (limiter.serve calls).2 ++ [(call.1, ((limiter.serve calls).1.allow call.1 call.2).1)]) := by
  simp only [serve, List.foldl_append, List.foldl_cons, List.foldl_nil]

theorem allow_limited {rate : Int} (hlimit : limiter.rateOf peer = some rate)
    (hrate : 1 ≤ rate) (now : ℚ) :
    ∀ bucket, ((limiter.buckets.lookup peer).getD { tokens := rate, updatedAt := now }).refill rate
      now = bucket →
      limiter.allow peer now =
        (bucket.spend.1,
          { limiter with buckets := limiter.buckets.upsert (peer, bucket.spend.2) }) := by
  rintro bucket rfl
  have hpositive : ¬ rate ≤ 0 := by omega
  simp only [allow, hlimit, hpositive, ↓reduceIte]

theorem allow_frame (other : String) (now : ℚ) :
    (limiter.allow other now).2.peerLimits = limiter.peerLimits ∧
      (other ≠ peer → (limiter.allow other now).2.buckets.lookup peer =
        limiter.buckets.lookup peer) := by
  simp only [allow]
  cases limiter.rateOf other with
  | none => exact ⟨rfl, fun _ => rfl⟩
  | some rate =>
    by_cases hrate : rate ≤ 0
    · simp [hrate]
    · simp only [hrate, ↓reduceIte, true_and]
      intro hother
      rw [Dict.lookup_upsert, if_neg hother]

theorem ofPeer_snoc {α : Type} (entries : List (String × α)) (e : String × α) :
    ofPeer peer (entries ++ [e]) = ofPeer peer entries ++ if e.1 = peer then [e.2] else [] := by
  by_cases h : e.1 = peer <;> simp [ofPeer, List.filter_append, h]

def sequenceOf (readings : List ℚ) (i : ℕ) : ℚ := readings.getD i 0

theorem sequenceOf_snoc {readings : List ℚ} {now : ℚ} {i : ℕ} (h : i < readings.length) :
    sequenceOf (readings ++ [now]) i = sequenceOf readings i := by
  simp [sequenceOf, List.getElem?_append_left h]

theorem sequenceOf_last (readings : List ℚ) (now : ℚ) :
    sequenceOf (readings ++ [now]) readings.length = now := by
  simp [sequenceOf]

def limitedAnswers (rate : Int) (readings : List ℚ) : List Bool :=
  (List.range readings.length).map (TokenBucket.allowedAt rate (sequenceOf readings))

/-- What a sequence of calls has done to one limited peer. -/
structure Tracks (peerLimits : Dict (Option ManifestLimits)) (peer : String) (rate : Int)
    (readings : List ℚ) (limiter : TokenBucketRateLimiter) (answers : List Bool) : Prop where
  limits : limiter.peerLimits = peerLimits
  answers : answers = limitedAnswers rate readings
  bucket : limiter.buckets.lookup peer =
    if readings = [] then none
      else some (TokenBucket.atCall rate (sequenceOf readings) (readings.length - 1)).spend.2

theorem allowedAt_snoc {rate : Int} {readings : List ℚ} {now : ℚ} {k : ℕ}
    (h : k < readings.length) :
    TokenBucket.allowedAt rate (sequenceOf (readings ++ [now])) k = TokenBucket.allowedAt rate
      (sequenceOf readings) k := by
  rw [TokenBucket.allowedAt, TokenBucket.allowedAt, TokenBucket.atCall_congr fun i hi =>
    sequenceOf_snoc (by omega)]

theorem Tracks.next {peerLimits : Dict (Option ManifestLimits)} {rate : Int} {readings : List ℚ}
    {answers : List Bool} (h : Tracks peerLimits peer rate readings limiter answers) (now : ℚ) :
    ((limiter.buckets.lookup peer).getD { tokens := rate, updatedAt := now }).refill rate now =
      TokenBucket.atCall rate (sequenceOf (readings ++ [now])) readings.length := by
  by_cases hempty : readings = []
  · subst hempty
    have hnone : limiter.buckets.lookup peer = none := by simpa using h.bucket
    rw [hnone, Option.getD_none, TokenBucket.refill_eq _ le_rfl]
    simp [TokenBucket.atCall, sequenceOf]
  · obtain ⟨n, hn⟩ : ∃ n, readings.length = n + 1 :=
      Nat.exists_eq_succ_of_ne_zero (by simpa using hempty)
    have hlast := sequenceOf_last readings now
    have hprefix : TokenBucket.atCall rate (sequenceOf (readings ++ [now])) n = TokenBucket.atCall
        rate (sequenceOf readings) n :=
      TokenBucket.atCall_congr fun i hi => sequenceOf_snoc (by omega)
    rw [hn] at hlast ⊢
    rw [h.bucket, if_neg hempty, hn, Option.getD_some, TokenBucket.atCall, hlast, hprefix,
      Nat.add_sub_cancel]

theorem serve_tracks {peerLimits : Dict (Option ManifestLimits)} {rate : Int}
    (hlimit : (create peerLimits).rateOf peer = some rate) (hrate : 1 ≤ rate)
    (calls : List (String × ℚ)) :
    Tracks peerLimits peer rate (ofPeer peer calls) ((create peerLimits).serve calls).1
      (ofPeer peer ((create peerLimits).serve calls).2) := by
  induction calls using List.reverseRecOn with
  | nil => exact ⟨rfl, rfl, rfl⟩
  | append_singleton calls call ih =>
    have hframe := @allow_frame ((create peerLimits).serve calls).1 peer call.1 call.2
    by_cases hpeer : call.1 = peer
    · have hlimit' : ((create peerLimits).serve calls).1.rateOf peer = some rate := by
        rw [← hlimit, rateOf, rateOf, ih.limits]
        rfl
      have hallow := allow_limited hlimit' hrate call.2 _ (ih.next call.2)
      rw [serve_snoc, ofPeer_snoc, ofPeer_snoc, if_pos hpeer, if_pos hpeer]
      refine ⟨hframe.1.trans ih.limits, ?_, ?_⟩
      · rw [limitedAnswers, List.length_append, List.length_singleton, List.range_succ,
          List.map_append, List.map_singleton, hpeer, hallow, ih.answers, limitedAnswers]
        congr 1
        apply List.map_congr_left
        intro k hk
        exact (allowedAt_snoc (List.mem_range.mp hk)).symm
      · rw [hpeer, hallow, Dict.lookup_upsert, if_pos rfl]
        simp
    · rw [serve_snoc, ofPeer_snoc, ofPeer_snoc, if_neg hpeer, if_neg hpeer, List.append_nil,
        List.append_nil]
      exact ⟨hframe.1.trans ih.limits, ih.answers, (hframe.2 hpeer).trans ih.bucket⟩

theorem allowedIn_eq_sum {allowed : ℕ → Bool} {n i k : ℕ} (hik : i ≤ k) (hk : k ≤ n) :
    (allowedIn ((List.range n).map allowed) i k : ℚ) = ∑ j ∈ Finset.Ico i k, if allowed j
      then 1 else 0 := by
  induction k, hik using Nat.le_induction with
  | base => simp [allowedIn]
  | succ k hik ih =>
    have hget : ((List.range n).map allowed)[k]? = some (allowed k) := by
      rw [List.getElem?_map, List.getElem?_range hk]
      rfl
    have hlength : i ≤ (((List.range n).map allowed).take k).length := by simp; omega
    rw [Finset.sum_Ico_succ_top hik, ← ih (by omega), allowedIn, allowedIn, List.take_add_one, hget,
      List.drop_append_of_le_length hlength, List.count_append, Nat.cast_add]
    cases allowed k <;> simp

theorem peak_eq (readings : List ℚ) (k : ℕ) :
    peak readings k = partialSups (sequenceOf readings) k := rfl

end Serve

section Exactness

open TokenBucketRateLimiter

variable {rate : Int} {readings : List ℚ}

theorem allowedAt_getElem {k : ℕ} (h : k < readings.length) :
    (limitedAnswers rate readings)[k]? = some true ↔
      1 ≤ (TokenBucket.atCall rate (sequenceOf readings) k).tokens := by
  rw [← TokenBucket.spend_fst, limitedAnswers, List.getElem?_map, List.getElem?_range h]
  simp [TokenBucket.allowedAt]

theorem answersExactly (rate : Int) (readings : List ℚ) (hrate : 1 ≤ rate) :
    AnswersExactly rate readings (limitedAnswers rate readings) := by
  have hrefilled := @TokenBucket.atCall_refilled rate (sequenceOf readings)
  have hsum : ∀ {i k : ℕ}, i ≤ k → k ≤ readings.length →
      (allowedIn (limitedAnswers rate readings) i k : ℚ) =
      ∑ j ∈ Finset.Ico i k, if TokenBucket.allowedAt rate (sequenceOf readings) j then 1 else 0 :=
        allowedIn_eq_sum
  have hiff : ∀ k < readings.length,
      (limitedAnswers rate readings)[k]? = some true ↔
        ∀ i ≤ k, (allowedIn (limitedAnswers rate readings) i k : ℚ) + 1 ≤
          rate + rate * (peak readings k - peak readings i) := by
    intro k hk
    rw [allowedAt_getElem hk, hrefilled.le_level_iff]
    refine forall₂_congr fun i hi => ?_
    rw [hsum hi hk.le, peak_eq, peak_eq, mul_sub, add_comm (1 : ℚ)]
  refine ⟨by simp [limitedAnswers], hiff, ?_, ?_⟩
  · intro k hk i hi
    rw [hsum (by omega) hk, peak_eq, peak_eq, mul_sub]
    exact hrefilled.window_le (TokenBucket.drawn_le (by omega)) hi
  · intro k hk henvelope
    refine (hiff k hk).mpr fun i hi => le_trans ?_ (henvelope i hi)
    have hcount : allowedIn (limitedAnswers rate readings) i k ≤ k - i := by
      refine List.count_le_length.trans ?_
      simp only [List.length_drop, List.length_take]
      omega
    have hcast : (allowedIn (limitedAnswers rate readings) i k : ℚ) ≤
        ((k - i : ℕ) : ℚ) := by exact_mod_cast hcount
    rw [Nat.cast_add, Nat.cast_one]
    linarith

end Exactness

/-- The limiter answers a peer with a limit exactly by its own windows. -/
theorem tokenBucket_exact (peerLimits : Dict (Option ManifestLimits)) (peer : String) (rate : Int)
    (hlimit : (TokenBucketRateLimiter.create peerLimits).rateOf peer = some rate) (hrate : 1 ≤ rate)
    (calls : List (String × ℚ)) :
    AnswersExactly rate (ofPeer peer calls)
      (ofPeer peer ((TokenBucketRateLimiter.create peerLimits).serve calls).2) ∧
      ofPeer peer ((TokenBucketRateLimiter.create peerLimits).serve calls).2 =
        ofPeer peer ((TokenBucketRateLimiter.create peerLimits).serve
          (calls.filter (fun c => c.1 = peer))).2 := by
  have htracks := serve_tracks hlimit hrate calls
  have halone := serve_tracks hlimit hrate (calls.filter (fun c => c.1 = peer))
  have hsame : ofPeer peer (calls.filter (fun c => c.1 = peer)) = ofPeer peer calls := by
    simp [ofPeer, List.filter_filter]
  rw [hsame] at halone
  refine ⟨?_, htracks.answers.trans halone.answers.symm⟩
  rw [htracks.answers]
  exact answersExactly rate _ hrate

def pacedLimits : Dict (Option ManifestLimits) :=
  Keyed.ofList [("alpha", some { maxOperationRpsPerPeer := some 2 }), ("beta", none)]

def pacedCalls : List (String × ℚ) :=
  [("alpha", 0), ("beta", 7), ("alpha", 0), ("alpha", 1 / 4), ("alpha", 1 / 2),
    ("alpha", 1 / 3), ("alpha", 1)]

theorem paced_exactly : AnswersExactly 2 [0, 0, 1 / 4, 1 / 2, 1 / 3, 1]
    (ofPeer "alpha" ((TokenBucketRateLimiter.create pacedLimits).serve pacedCalls).2) := by
  have hreadings : ofPeer "alpha" pacedCalls = [0, 0, 1 / 4, 1 / 2, 1 / 3, 1] :=
    by simp [ofPeer, pacedCalls]
  rw [← hreadings]
  exact (tokenBucket_exact pacedLimits "alpha" 2 rfl (by decide) pacedCalls).1

example : ofPeer "alpha" ((TokenBucketRateLimiter.create pacedLimits).serve pacedCalls).2 =
    [true, true, false, true, false, true] := by decide +kernel

end Federlet
