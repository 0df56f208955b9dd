import Federlet.Time

/-! Aware datetimes whose `tzinfo` looks the offset up from the wall clock, as
`ZoneInfo` does. Where a clock is set back a wall time is read twice, and the
`fold` tells the readings apart; where it is set forward some are never read. -/

namespace Federlet

/-- What the `tzinfo` objects answer to `utcoffset`, at a wall time and a fold. -/
structure ZoneTable where
  utcoffset : Nat → Int → Bool → Int
  range : ∀ zone wall fold,
    -dayMicros < utcoffset zone wall fold ∧ utcoffset zone wall fold < dayMicros

inductive ZonedTime (Z : ZoneTable) where
  | fixed (d : DateTime)
  | zoned (zone : Nat) (wall : Int) (fold : Bool) (range : 0 ≤ wall ∧ wall < calendarMicros)

namespace ZonedTime

variable {Z : ZoneTable}

def toFixed : ZonedTime Z → DateTime
  | .fixed d => d
  | .zoned zone wall fold h => ⟨wall, Z.utcoffset zone wall fold, h, Z.range zone wall fold⟩

def instant (t : ZonedTime Z) : Int := t.toFixed.instant

/-- One `tzinfo` object. A constant offset makes no difference here. -/
def sameZone : ZonedTime Z → ZonedTime Z → Bool
  | .zoned zone _ _ _, .zoned zone' _ _ _ => decide (zone = zone')
  | _, _ => false

/-- The microseconds of `a - b`: with one `tzinfo` the wall times are subtracted as
they stand. -/
def diffMicros (a b : ZonedTime Z) : Int :=
  if a.sameZone b then a.toFixed.wall - b.toFixed.wall else a.instant - b.instant

instance : LE (ZonedTime Z) := ⟨fun a b => a.diffMicros b ≤ 0⟩

instance : LT (ZonedTime Z) := ⟨fun a b => a.diffMicros b < 0⟩

instance : DecidableLE (ZonedTime Z) := fun a b => Int.decLe (a.diffMicros b) 0

instance : DecidableLT (ZonedTime Z) := fun a b => Int.decLt (a.diffMicros b) 0

/-- The wall time is read twice, or never. -/
def foldDependent : ZonedTime Z → Bool
  | .fixed _ => false
  | .zoned zone wall _ _ => decide (Z.utcoffset zone wall true ≠ Z.utcoffset zone wall false)

/-- `==`; across `tzinfo` objects a time that depends on its fold equals none. -/
def Equal (a b : ZonedTime Z) : Prop :=
  a.diffMicros b = 0 ∧ (a.sameZone b = true ∨ (a.foldDependent = false ∧ b.foldDependent = false))

instance (a b : ZonedTime Z) : Decidable (a.Equal b) := inferInstanceAs (Decidable (_ ∧ _))

/-- The wall time moves, in the same zone, and the fold is forgotten. -/
def add : ZonedTime Z → TimeDelta → Except Exc (ZonedTime Z)
  | .fixed d, t => (d.add t).map .fixed
  | .zoned zone wall _ _, t =>
    if h : 0 ≤ wall + t.micros ∧ wall + t.micros < calendarMicros then
      .ok (.zoned zone (wall + t.micros) false h)
    else .error .overflowError

instance : HAdd (ZonedTime Z) TimeDelta (Except Exc (ZonedTime Z)) := ⟨add⟩

@[simp] theorem sameZone_fixed_left (d : DateTime) (t : ZonedTime Z) :
    sameZone (.fixed d) t = false := rfl

@[simp] theorem sameZone_fixed_right (t : ZonedTime Z) (d : DateTime) :
    t.sameZone (.fixed d) = false := by
  cases t <;> rfl

@[simp] theorem instant_fixed (d : DateTime) : (fixed d : ZonedTime Z).instant = d.instant := rfl

theorem lt_fixed_iff {t : ZonedTime Z} {d : DateTime} : t < .fixed d ↔ t.instant < d.instant := by
  show t.diffMicros (.fixed d) < 0 ↔ _
  simp only [diffMicros, sameZone_fixed_right, Bool.false_eq_true, ↓reduceIte, instant_fixed]
  omega

theorem fixed_equal_iff {d : DateTime} {t : ZonedTime Z} :
    Equal (.fixed d) t ↔ d.instant = t.instant ∧ t.foldDependent = false := by
  simp only [Equal, diffMicros, sameZone_fixed_left, Bool.false_eq_true, ↓reduceIte, instant_fixed,
    foldDependent, true_and, false_or]
  refine and_congr_left fun _ => ?_
  omega

/-- Every time comes before `t` by the clock of its zone exactly if it does so as an instant. -/
def InOrder (t : ZonedTime Z) : Prop := ∀ r : ZonedTime Z, r < t ↔ r.instant < t.instant

theorem inOrder_fixed (d : DateTime) : InOrder (Z := Z) (.fixed d) := fun _ => lt_fixed_iff

theorem le_iff_not_lt {a b : ZonedTime Z} : a ≤ b ↔ ¬ b < a := by
  show a.diffMicros b ≤ 0 ↔ ¬ b.diffMicros a < 0
  have hcomm : b.sameZone a = a.sameZone b := by
    cases a <;> cases b <;> simp [sameZone, eq_comm]
  simp only [diffMicros, hcomm]
  split_ifs <;> omega

end ZonedTime

end Federlet
