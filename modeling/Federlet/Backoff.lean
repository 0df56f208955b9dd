import Mathlib.Algebra.Order.Ring.Int
import Mathlib.Data.Nat.Cast.Order.Ring
import Mathlib.Tactic.Positivity
import Federlet.Membership

/-! Exponential backoff over whole sequences of refresh outcomes. The cap is
taken after `base_cooldown * multiplier`, a bounded `timedelta` product, so the
law holds as long as the uncapped product stays a `timedelta`. -/

namespace Federlet

inductive HealthCall where
  | failure (now : DateTime)
  | success (now : DateTime)

def HealthCall.apply (policy : CooldownPolicy) (rec : MemberRecord) :
    HealthCall → Except Exc MemberRecord
  | .failure now => (recordFailure rec policy now).2
  | .success now => .ok (recordSuccess rec now)

def HealthCall.count : HealthCall → Nat → Nat
  | .failure _, failures => failures + 1
  | .success _, _ => 0

/-- The cooldown after `failures` consecutive failures, in unbounded arithmetic. -/
def backoff (policy : CooldownPolicy) (failures : Nat) : Int :=
  min (policy.baseCooldown.micros * 2 ^ (failures - 1)) policy.maxCooldown.micros

/-- Eligible at once after a success, and exactly `backoff` after a failure. -/
def EligibleAfter (policy : CooldownPolicy) (rec : MemberRecord) (failures : Nat) :
    HealthCall → Prop
  | .success _ => ∀ time, rec.isEligible time = true
  | .failure now => ∀ time : DateTime, now.instant ≤ time.instant →
      (rec.isEligible time = true ↔ now.instant + backoff policy failures ≤ time.instant)

/-- No call raises, and after each the record is eligible as the law says. -/
def BackoffLaw (policy : CooldownPolicy) : MemberRecord → Nat → List HealthCall → Prop
  | _, _, [] => True
  | rec, failures, call :: calls => ∃ r, call.apply policy rec = .ok r ∧
      EligibleAfter policy r (call.count failures) call ∧
      BackoffLaw policy r (call.count failures) calls

def failuresOf : Nat → List HealthCall → List (Nat × DateTime)
  | _, [] => []
  | failures, .failure now :: calls => (failures + 1, now) :: failuresOf (failures + 1) calls
  | _, .success _ :: calls => failuresOf 0 calls

/-- The uncapped product is a `timedelta`. -/
def Scalable (policy : CooldownPolicy) (failures : Nat) : Prop :=
  policy.baseCooldown.micros * 2 ^ (failures - 1) < 1000000000 * 86400000000

instance (policy : CooldownPolicy) (failures : Nat) : Decidable (Scalable policy failures) :=
  inferInstanceAs (Decidable (_ < _))

/-- What admission and every later outcome leave of a record. -/
structure Healthy (rec : MemberRecord) (failures : Nat) : Prop where
  active : rec.state = .active
  no_deadline : rec.acceptedUntil = none
  counted : rec.failures = failures

theorem Healthy.admitted (rec : MemberRecord) (now : DateTime) :
    Healthy (rec.admitRecord none now) 0 :=
  ⟨rfl, rfl, rfl⟩

theorem Healthy.recordSuccess {rec : MemberRecord} {failures : Nat} (h : Healthy rec failures)
    (now : DateTime) : Healthy (recordSuccess rec now) 0 where
  active := by simp [Federlet.recordSuccess, MemberRecord.touch, h.active]
  no_deadline := h.no_deadline
  counted := rfl

theorem nextCooldown_of_scalable {policy : CooldownPolicy} {failures : Nat}
    (hbase : 0 < policy.baseCooldown.micros) (h : Scalable policy failures) :
    ∃ cooldown, policy.nextCooldown failures = .ok cooldown ∧
      cooldown.micros = backoff policy failures := by
  have hpos : 0 < policy.baseCooldown.micros * 2 ^ (failures - 1) := by positivity
  have hr : -999999999 * 86400000000 ≤ policy.baseCooldown.micros * 2 ^ (failures - 1) ∧
      policy.baseCooldown.micros * 2 ^ (failures - 1) < 1000000000 * 86400000000 :=
    ⟨by omega, h⟩
  simp only [CooldownPolicy.nextCooldown, TimeDelta.mul, TimeDelta.ofMicros, Nat.one_shiftLeft,
    Nat.cast_pow, Nat.cast_ofNat, dif_pos hr, bind, Except.bind, pure, Except.pure]
  refine ⟨_, rfl, ?_⟩
  split_ifs with hmax
  · exact (min_eq_right (le_of_lt hmax)).symm
  · exact (min_eq_left (not_lt.mp hmax)).symm

theorem nextCooldown_of_not_scalable {policy : CooldownPolicy} {failures : Nat}
    (h : ¬ Scalable policy failures) : policy.nextCooldown failures = .error .overflowError := by
  have hr : ¬ (-999999999 * 86400000000 ≤ policy.baseCooldown.micros * 2 ^ (failures - 1) ∧
      policy.baseCooldown.micros * 2 ^ (failures - 1) < 1000000000 * 86400000000) :=
    fun hr => h hr.2
  simp only [CooldownPolicy.nextCooldown, TimeDelta.mul, TimeDelta.ofMicros, Nat.one_shiftLeft,
    Nat.cast_pow, Nat.cast_ofNat, dif_neg hr, bind, Except.bind]

theorem recordFailure_of_scalable {policy : CooldownPolicy} {rec : MemberRecord} {failures : Nat}
    {now : DateTime} (hrec : Healthy rec failures) (hbase : 0 < policy.baseCooldown.micros)
    (hmax : 0 < policy.maxCooldown.micros) (hs : Scalable policy (failures + 1))
    (hfar : now.wall + backoff policy (failures + 1) < calendarMicros) :
    ∃ r, (recordFailure rec policy now).2 = .ok r ∧ Healthy r (failures + 1) ∧
      EligibleAfter policy r (failures + 1) (.failure now) := by
  obtain ⟨cooldown, hc, hmicros⟩ := nextCooldown_of_scalable hbase hs
  have hpos : 0 < backoff policy (failures + 1) := by
    have : 0 < policy.baseCooldown.micros * 2 ^ (failures + 1 - 1) := by positivity
    exact lt_min this hmax
  have hw : 0 ≤ now.wall + cooldown.micros ∧ now.wall + cooldown.micros < calendarMicros := by
    rw [hmicros]
    exact ⟨by have := now.wall_range.1; omega, hfar⟩
  obtain ⟨until_, hu⟩ := DateTime.exists_add hw
  have hinstant := DateTime.add_instant hu
  rw [hmicros] at hinstant
  refine ⟨{ rec with failures := failures + 1, cooldownUntil := some until_ }.touch now,
    by simp only [recordFailure, hrec.counted, hc, DateTime.hAdd_eq, hu, bind, Except.bind,
      pure, Except.pure],
    ⟨hrec.active, hrec.no_deadline, rfl⟩, ?_⟩
  intro time htime
  simp only [MemberRecord.isEligible, MemberRecord.touch, hrec.active, hrec.no_deadline,
    DateTime.le_iff, DateTime.lt_iff, hinstant, Option.any_none, Option.any_some, decide_eq_true_eq]
  simp

theorem backoffLaw_iff_of_healthy {policy : CooldownPolicy} (hbase : 0 < policy.baseCooldown.micros)
    (hmax : 0 < policy.maxCooldown.micros) {rec : MemberRecord} {failures : Nat}
    (hrec : Healthy rec failures) {calls : List HealthCall}
    (hfar : ∀ f ∈ failuresOf failures calls, f.2.wall + backoff policy f.1 < calendarMicros) :
    BackoffLaw policy rec failures calls ↔ ∀ f ∈ failuresOf failures calls,
      Scalable policy f.1 := by
  induction calls generalizing rec failures with
  | nil => simp [BackoffLaw, failuresOf]
  | cons call calls ih =>
    cases call with
    | success now =>
      have hnext := hrec.recordSuccess now
      rw [failuresOf, ← ih hnext hfar, BackoffLaw]
      constructor
      · rintro ⟨r, hr, _, hlaw⟩
        cases hr
        exact hlaw
      · intro hlaw
        refine ⟨_, rfl, ?_, hlaw⟩
        intro time
        simp [MemberRecord.isEligible, hnext.active, hnext.no_deadline]
        rfl
    | failure now =>
      rw [failuresOf, List.forall_mem_cons] at hfar ⊢
      by_cases hs : Scalable policy (failures + 1)
      · obtain ⟨r, hr, hnext, helig⟩ := recordFailure_of_scalable hrec hbase hmax hs hfar.1
        rw [← ih hnext hfar.2, BackoffLaw]
        constructor
        · rintro ⟨r', hr', _, hlaw⟩
          obtain rfl : r = r' := by simpa [HealthCall.apply, hr] using hr'
          exact ⟨hs, hlaw⟩
        · rintro ⟨_, hlaw⟩
          exact ⟨r, hr, helig, hlaw⟩
      · rw [BackoffLaw]
        constructor
        · rintro ⟨r, hr, _⟩
          simp only [HealthCall.apply, recordFailure, hrec.counted,
            nextCooldown_of_not_scalable hs, bind, Except.bind, reduceCtorEq] at hr
        · exact fun h => absurd h.1 hs

/-- From admission on, the backoff law holds exactly as long as no streak of
failures drives the uncapped product out of the `timedelta` range. -/
theorem backoffLaw_iff (policy : CooldownPolicy) (hbase : 0 < policy.baseCooldown.micros)
    (hmax : 0 < policy.maxCooldown.micros) (rec : MemberRecord) (admitted : DateTime)
    (calls : List HealthCall)
    (hfar : ∀ f ∈ failuresOf 0 calls, f.2.wall + backoff policy f.1 < calendarMicros) :
    BackoffLaw policy (rec.admitRecord none admitted) 0 calls ↔
      ∀ f ∈ failuresOf 0 calls, Scalable policy f.1 :=
  backoffLaw_iff_of_healthy hbase hmax (.admitted rec admitted) hfar

def newYear2026 : DateTime := .utc 63902822400000000 (by decide)

def freshPeer : MemberRecord :=
  ({ nodeId := "beta", manifestUrl := "https://beta.example/manifest" }  : MemberRecord).admitRecord
    none newYear2026

theorem backoffLaw_recovering_peer :
    BackoffLaw {} freshPeer 0 [.failure newYear2026, .failure newYear2026, .success newYear2026,
      .failure newYear2026] :=
  (backoffLaw_iff {} (by decide) (by decide) _ newYear2026 _ (by decide)).mpr (by decide)

/-- The forty-third failure in a row raises `OverflowError` although the cap is ten minutes. -/
theorem not_backoffLaw_long_outage :
    (∀ f ∈ failuresOf 0 (List.replicate 43 (.failure newYear2026)),
      f.2.wall + backoff {} f.1 < calendarMicros) ∧
    ¬ BackoffLaw {} freshPeer 0 (List.replicate 43 (.failure newYear2026)) := by
  have hfar : ∀ f ∈ failuresOf 0 (List.replicate 43 (.failure newYear2026)),
      f.2.wall + backoff {} f.1 < calendarMicros := by decide
  have hfresh : Healthy freshPeer 0 := .admitted _ newYear2026
  refine ⟨hfar, fun hlaw => ?_⟩
  exact absurd ((backoffLaw_iff_of_healthy (by decide) (by decide) hfresh hfar).mp hlaw) (by decide)

end Federlet
