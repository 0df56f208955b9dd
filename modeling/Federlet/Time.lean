import Federlet.Library.Binary64
import Federlet.Reasons

/-! Aware datetimes and durations with the ranges Python gives them, and the
`iso_z` rendering. A datetime is a wall clock in microseconds since year 1
together with its UTC offset; arithmetic moves the wall clock and raises
`OverflowError` outside years 1..9999, comparisons look at the instant. -/

namespace Federlet

def dayMicros : Int := 86400000000

/-- The microseconds of `datetime.MINYEAR` to `datetime.MAXYEAR`. -/
def calendarMicros : Int := 3652059 * 86400000000

structure DateTime where
  wall : Int
  offset : Int
  wall_range : 0 ≤ wall ∧ wall < calendarMicros
  offset_range : -dayMicros < offset ∧ offset < dayMicros
  deriving DecidableEq

structure TimeDelta where
  micros : Int
  range : -999999999 * 86400000000 ≤ micros ∧ micros < 1000000000 * 86400000000
  deriving DecidableEq

def TimeDelta.ofMicros (m : Int) : Except Exc TimeDelta :=
  if h : -999999999 * 86400000000 ≤ m ∧ m < 1000000000 * 86400000000 then .ok ⟨m, h⟩
  else .error .overflowError

def TimeDelta.ofSeconds (n : Int) : Except Exc TimeDelta := TimeDelta.ofMicros (n * 1000000)

def TimeDelta.mul (t : TimeDelta) (n : Int) :
    Except Exc TimeDelta := TimeDelta.ofMicros (t.micros * n)

namespace DateTime

def instant (d : DateTime) : Int := d.wall - d.offset

def withWall (d : DateTime) (wall : Int) : Except Exc DateTime :=
  if h : 0 ≤ wall ∧ wall < calendarMicros then .ok { d with wall := wall, wall_range := h }
  else .error .overflowError

def add (d : DateTime) (t : TimeDelta) : Except Exc DateTime := d.withWall (d.wall + t.micros)

def sub (d : DateTime) (t : TimeDelta) : Except Exc DateTime := d.withWall (d.wall - t.micros)

theorem withWall_ok {d r : DateTime} {w : Int} (h : d.withWall w = .ok r) :
    r.wall = w ∧ r.offset = d.offset := by
  unfold withWall at h
  split_ifs at h with hw
  cases h
  exact ⟨rfl, rfl⟩

theorem add_instant {d r : DateTime} {t : TimeDelta} (h : d.add t = .ok r) :
    r.instant = d.instant + t.micros := by
  obtain ⟨hw, ho⟩ := withWall_ok h
  simp only [instant, hw, ho]
  omega

instance : HAdd DateTime TimeDelta (Except Exc DateTime) := ⟨add⟩

@[simp] theorem hAdd_eq (d : DateTime) (t : TimeDelta) : d + t = d.add t := rfl

/-- `<` and `>=`; with constant offsets they look at the instant. -/
instance : LE DateTime := ⟨fun a b => a.instant ≤ b.instant⟩

instance : LT DateTime := ⟨fun a b => a.instant < b.instant⟩

@[simp] theorem le_iff {a b : DateTime} : a ≤ b ↔ a.instant ≤ b.instant := Iff.rfl

@[simp] theorem lt_iff {a b : DateTime} : a < b ↔ a.instant < b.instant := Iff.rfl

instance : DecidableLE DateTime := fun a b => Int.decLe a.instant b.instant

instance : DecidableLT DateTime := fun a b => Int.decLt a.instant b.instant

theorem exists_add {d : DateTime} {t : TimeDelta}
    (h : 0 ≤ d.wall + t.micros ∧ d.wall + t.micros < calendarMicros) : ∃ r, d.add t = .ok r :=
  ⟨_, dif_pos h⟩

def utc (micros : Int) (h : 0 ≤ micros ∧ micros < calendarMicros) : DateTime :=
  ⟨micros, 0, h, by decide⟩

def diffMicros (a b : DateTime) : Int := a.instant - b.instant

/-- `(a - b).total_seconds()`, the float nearest the quotient. -/
def totalSeconds (a b : DateTime) : ℚ := Binary64.nearest (a.diffMicros b / 1000000)

/-- Below `2^34` seconds the float is less than a microsecond off, and whole
seconds are exact. -/
theorem abs_totalSeconds_le_iff {a b : DateTime} {s : Int} (h : s < 2 ^ 34) :
    |a.totalSeconds b| ≤ s ↔ ((a.diffMicros b).natAbs : Int) ≤ s * 1000000 := by
  have hrange : |a.diffMicros b| < 2 ^ 53 * 1000000 := by
    have ha := a.wall_range
    have hb := b.wall_range
    have ha' := a.offset_range
    have hb' := b.offset_range
    simp only [diffMicros, instant, calendarMicros, dayMicros] at *
    rw [abs_lt]
    omega
  rw [totalSeconds, Int.natCast_natAbs]
  exact_mod_cast Binary64.abs_nearest_div_le_iff (k := 33) (by norm_num) hrange h (by norm_num)

def utcRepresentable (d : DateTime) : Bool := decide (0 ≤ d.instant ∧ d.instant < calendarMicros)

theorem utcRepresentable_iff {d : DateTime} :
    d.utcRepresentable = true ↔ 0 ≤ d.instant ∧ d.instant < calendarMicros := by
  simp [utcRepresentable]

def astimezoneUtc (d : DateTime) : Except Exc DateTime :=
  if h : 0 ≤ d.instant ∧ d.instant < calendarMicros then .ok (utc d.instant h)
  else .error .overflowError

def wholeSecond (d : DateTime) : Int := d.instant / 1000000

end DateTime

def daysBeforeMonth (leap : Bool) (month : Nat) : Nat :=
  [0, 0, 31, 59, 90, 120, 151, 181, 212, 243, 273, 304, 334].getD month 0 +
    if month > 2 ∧ leap then 1 else 0

def monthDay (leap : Bool) (n : Nat) : Nat × Nat :=
  let month := (n + 50) / 32
  if daysBeforeMonth leap month > n then (month - 1, n - daysBeforeMonth leap (month - 1) + 1)
  else (month, n - daysBeforeMonth leap month + 1)

def ordToYmd (ordinal : Nat) : Nat × Nat × Nat :=
  let n := ordinal - 1
  let n400 := n / 146097
  let n := n % 146097
  let n100 := n / 36524
  let n := n % 36524
  let n4 := n / 1461
  let n := n % 1461
  let n1 := n / 365
  let n := n % 365
  let year := n400 * 400 + n100 * 100 + n4 * 4 + n1 + 1
  if n1 = 4 ∨ n100 = 4 then (year - 1, 12, 31)
  else (year, monthDay (decide (n1 = 3 ∧ (n4 ≠ 24 ∨ n100 = 3))) n)

def isLeap (y : Nat) : Bool := decide (y % 4 = 0 ∧ (y % 100 ≠ 0 ∨ y % 400 = 0))

def ymdToOrd (y m d : Nat) : Nat :=
  ((y - 1) * 365 + (y - 1) / 4 - (y - 1) / 100 + (y - 1) / 400) + daysBeforeMonth (isLeap y) m + d

theorem monthDay_spec : ∀ leap : Bool, ∀ n < 366, (n = 365 → leap = true) →
    daysBeforeMonth leap (monthDay leap n).1 + (monthDay leap n).2 = n + 1 ∧
      (monthDay leap n).1 < 100 ∧ (monthDay leap n).2 < 100 := by
  decide +kernel

theorem ymdToOrd_of_cycles {a b c d e y : Nat} {m : Nat × Nat}
    (hy : y = a * 400 + b * 100 + c * 4 + d + 1) (hb : b ≤ 3) (hc : c ≤ 24) (hd : d ≤ 3)
    (hm : daysBeforeMonth (isLeap y) m.1 + m.2 = e + 1) :
    ymdToOrd y m.1 m.2 = 146097 * a + 36524 * b + 1461 * c + 365 * d + e + 1 := by
  have h4 : (y - 1) / 4 = 100 * a + 25 * b + c := by omega
  have h100 : (y - 1) / 100 = 4 * a + b := by omega
  have h400 : (y - 1) / 400 = a := by omega
  simp only [ymdToOrd, h4, h100, h400]
  omega

theorem ymdToOrd_ordToYmd {n : Nat} (hn : 1 ≤ n) :
    ymdToOrd (ordToYmd n).1 (ordToYmd n).2.1 (ordToYmd n).2.2 = n := by
  obtain ⟨k, rfl⟩ : ∃ k, n = k + 1 := ⟨n - 1, by omega⟩
  simp only [ordToYmd, Nat.add_sub_cancel]
  generalize ha : k / 146097 = a
  generalize hr : k % 146097 = r
  generalize hb : r / 36524 = b
  generalize hs : r % 36524 = s
  generalize hc : s / 1461 = c
  generalize ht : s % 1461 = t
  generalize hd : t / 365 = d
  generalize he : t % 365 = e
  have hk : k = 146097 * a + 36524 * b + 1461 * c + 365 * d + e := by omega
  have hc24 : c ≤ 24 := by omega
  split_ifs with h
  · have hm : daysBeforeMonth true 12 = 335 := by decide
    have hdec : ∃ b' c', b' ≤ 3 ∧ c' ≤ 24 ∧
        a * 400 + b * 100 + c * 4 + d = a * 400 + b' * 100 + c' * 4 + 3 + 1 ∧
        (c' ≠ 24 ∨ b' = 3) ∧ k = 146097 * a + 36524 * b' + 1461 * c' + 365 * 3 + 365 := by
      rcases h with h | h
      · exact ⟨b, c, by omega, by omega, by omega, by omega, by omega⟩
      · exact ⟨3, 24, by omega, by omega, by omega, by omega, by omega⟩
    obtain ⟨b', c', hb', hc', hy, hleap, hk'⟩ := hdec
    have hl : isLeap (a * 400 + b' * 100 + c' * 4 + 3 + 1) = true := by
      simp only [isLeap, decide_eq_true_eq]
      omega
    rw [hy]
    refine (ymdToOrd_of_cycles (m := (12, 31)) (e := 365) rfl hb' hc' (by omega) ?_).trans ?_
    · simp only [hl, hm]
    · omega
  · have hl : isLeap (a * 400 + b * 100 + c * 4 + d + 1) =
        decide (d = 3 ∧ (c ≠ 24 ∨ b = 3)) := by
      simp only [isLeap]
      rw [decide_eq_decide]
      omega
    refine (ymdToOrd_of_cycles (e := e) rfl (by omega) hc24 (by omega) ?_).trans ?_
    · rw [hl]
      exact (monthDay_spec _ e (by omega) (by omega)).1
    · omega

theorem ordToYmd_year_lt {n : Nat} (hn : n ≤ 3652059) : (ordToYmd n).1 < 10000 := by
  simp only [ordToYmd]
  split_ifs <;> simp only <;> omega

theorem ordToYmd_day_lt (n : Nat) : (ordToYmd n).2.1 < 100 ∧ (ordToYmd n).2.2 < 100 := by
  simp only [ordToYmd]
  split_ifs with h
  · simp
  · exact (monthDay_spec _ _ (by omega) (by omega)).2

def digit (n : Nat) : Char := Char.ofNat (48 + n % 10)

def pad2 (n : Nat) : List Char := [digit (n / 10), digit n]

def pad4 (n : Nat) : List Char := [digit (n / 1000), digit (n / 100), digit (n / 10), digit n]

def isoChars (secs : Nat) : List Char :=
  let (y, m, d) := ordToYmd (secs / 86400 + 1)
  let t := secs % 86400
  pad4 y ++ '-' :: pad2 m ++ '-' :: pad2 d ++ 'T' :: pad2 (t / 3600) ++ ':' :: pad2 (t / 60 % 60) ++
    ':' :: pad2 (t % 60) ++ ['Z']

theorem digit_inj {a b : Nat} (h : digit a = digit b) : a % 10 = b % 10 := by
  have key : ∀ i < 10, ∀ j < 10, Char.ofNat (48 + i) = Char.ofNat (48 + j) → i = j := by decide
  exact key _ (Nat.mod_lt _ (by decide)) _ (Nat.mod_lt _ (by decide)) h

theorem pad2_inj {a b : Nat} (ha : a < 100) (hb : b < 100) (h : pad2 a = pad2 b) : a = b := by
  simp only [pad2, List.cons.injEq, and_true] at h
  have h1 := digit_inj h.1
  have h2 := digit_inj h.2
  omega

theorem pad4_inj {a b : Nat} (ha : a < 10000) (hb : b < 10000) (h : pad4 a = pad4 b) : a = b := by
  simp only [pad4, List.cons.injEq, and_true] at h
  have h1 := digit_inj h.1
  have h2 := digit_inj h.2.1
  have h3 := digit_inj h.2.2.1
  have h4 := digit_inj h.2.2.2
  omega

theorem isoChars_inj {a b : Nat} (ha : a < 3652059 * 86400) (hb : b < 3652059 * 86400)
    (h : isoChars a = isoChars b) : a = b := by
  have hya := ordToYmd_year_lt (n := a / 86400 + 1) (by omega)
  have hyb := ordToYmd_year_lt (n := b / 86400 + 1) (by omega)
  have hda := ordToYmd_day_lt (a / 86400 + 1)
  have hdb := ordToYmd_day_lt (b / 86400 + 1)
  have hoa := ymdToOrd_ordToYmd (n := a / 86400 + 1) (by omega)
  have hob := ymdToOrd_ordToYmd (n := b / 86400 + 1) (by omega)
  simp only [isoChars] at h
  generalize ordToYmd (a / 86400 + 1) = p at *
  generalize ordToYmd (b / 86400 + 1) = q at *
  obtain ⟨y, m, d⟩ := p
  obtain ⟨y', m', d'⟩ := q
  simp only [pad4, pad2, List.cons_append, List.nil_append, List.cons.injEq, and_true, true_and]
    at h
  obtain ⟨y0, y1, y2, y3, m0, m1, d0, d1, h0, h1, i0, i1, s0, s1⟩ := h
  have hy : y = y' := pad4_inj hya hyb (by simp [pad4, *])
  have hm : m = m' := pad2_inj hda.1 hdb.1 (by simp [pad2, *])
  have hd : d = d' := pad2_inj hda.2 hdb.2 (by simp [pad2, *])
  have hh : a % 86400 / 3600 = b % 86400 / 3600 :=
    pad2_inj (by omega) (by omega) (by simp [pad2, *])
  have hi : a % 86400 / 60 % 60 = b % 86400 / 60 % 60 :=
    pad2_inj (by omega) (by omega) (by simp [pad2, *])
  have hs : a % 86400 % 60 = b % 86400 % 60 :=
    pad2_inj (by omega) (by omega) (by simp only [pad2, s0, s1])
  subst hy hm hd
  have : a / 86400 + 1 = b / 86400 + 1 := hoa.symm.trans hob
  omega

def isoZ (d : DateTime) : Except Exc String := do
  let u ← d.astimezoneUtc
  return String.ofList (isoChars u.wholeSecond.toNat)

theorem isoZ_ok {d : DateTime} {s : String} (h : isoZ d = .ok s) :
    d.utcRepresentable = true ∧ s = String.ofList (isoChars d.wholeSecond.toNat) := by
  unfold isoZ DateTime.astimezoneUtc at h
  split_ifs at h with hr
  · refine ⟨DateTime.utcRepresentable_iff.mpr hr, ?_⟩
    cases h
    simp [DateTime.wholeSecond, DateTime.instant, DateTime.utc]
  · cases h

theorem isoZ_error {d : DateTime} (h : d.utcRepresentable = false) :
    isoZ d = .error .overflowError := by
  have hr : ¬ (0 ≤ d.instant ∧ d.instant < calendarMicros) := by
    rw [← DateTime.utcRepresentable_iff, h]
    exact Bool.false_ne_true
  simp only [isoZ, DateTime.astimezoneUtc, dif_neg hr]
  rfl

theorem isoZ_of_representable {d : DateTime} (h : d.utcRepresentable = true) :
    isoZ d = .ok (String.ofList (isoChars d.wholeSecond.toNat)) := by
  cases hz : isoZ d with
  | ok s => rw [(isoZ_ok hz).2]
  | error e =>
    have hr := DateTime.utcRepresentable_iff.mp h
    simp only [isoZ, DateTime.astimezoneUtc, dif_pos hr] at hz
    cases hz

/-- Two datetimes render alike exactly when they fall in the same whole second. -/
theorem isoZ_inj {d d' : DateTime} {s : String} (h : isoZ d = .ok s) (h' : isoZ d' = .ok s) :
    d.wholeSecond = d'.wholeSecond := by
  obtain ⟨hr, rfl⟩ := isoZ_ok h
  obtain ⟨hr', hs⟩ := isoZ_ok h'
  rw [DateTime.utcRepresentable_iff, calendarMicros] at hr hr'
  have hn : d.wholeSecond.toNat = d'.wholeSecond.toNat := by
    apply isoChars_inj _ _ (String.ofList_inj.mp hs)
    all_goals simp only [DateTime.wholeSecond]; omega
  simp only [DateTime.wholeSecond] at hn ⊢
  omega

end Federlet
