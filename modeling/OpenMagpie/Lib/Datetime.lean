import Mathlib.Data.Int.Order.Basic

/-!
# Datetimes

A datetime is a wall time in the years 1 to 9999, with an offset from UTC unless it is naive.
Subtracting a duration leaves the offset, and overflows outside of these years; two aware datetimes
are compared by their instants.

* `DateTime`, `DateTime.sub`, `DateTime.instant`: datetimes; `timedelta`: durations.
-/

set_option autoImplicit false

namespace Python

/-- The microseconds of a day. -/
def dayMicros : ℤ := 86400 * 1000000

/-- The microseconds of the years 1 to 9999. -/
def maxWall : ℤ := 3652059 * dayMicros

/-- A datetime: the microseconds from the start of the year 1 to its wall time, and its UTC offset in
microseconds; a naive one has none. -/
structure DateTime where
  wall : ℤ
  offset : Option ℤ
  wall_nonneg : 0 ≤ wall
  wall_lt : wall < maxWall

namespace DateTime

/-- The datetime is aware. -/
def Aware (d : DateTime) : Prop := d.offset.isSome

/-- `d.replace(tzinfo=UTC)`. -/
def replaceUtc (d : DateTime) : DateTime := { d with offset := some 0 }

/-- `d - delta`; none where it raises an `OverflowError`. -/
def sub (d : DateTime) (delta : ℤ) : Option DateTime :=
  if h : 0 ≤ d.wall - delta ∧ d.wall - delta < maxWall then
    some { d with wall := d.wall - delta, wall_nonneg := h.1, wall_lt := h.2 }
  else none

/-- The instant of an aware datetime, which comparisons go by. -/
def instant (d : DateTime) : ℤ := d.wall - d.offset.getD 0

variable {d d' : DateTime} {delta : ℤ}

theorem aware_replaceUtc : d.replaceUtc.Aware := rfl

theorem sub_eq_some (h : d.sub delta = some d') : d'.wall = d.wall - delta ∧ d'.offset = d.offset := by
  unfold sub at h
  split at h
  · obtain rfl := Option.some.inj h
    exact ⟨rfl, rfl⟩
  · cases h

/-- A difference is as aware as the datetime. -/
theorem Aware.sub (h : d.Aware) (hs : d.sub delta = some d') : d'.Aware := by
  rw [Aware, (sub_eq_some hs).2]
  exact h

end DateTime

/-- `timedelta` of an amount of a unit, in microseconds; none where it raises an `OverflowError`. -/
def timedelta (unit amount : ℤ) : Option ℤ :=
  if -999999999 ≤ amount * unit / dayMicros ∧ amount * unit / dayMicros ≤ 999999999 then
    some (amount * unit)
  else none

end Python
