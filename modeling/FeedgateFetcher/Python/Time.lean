import Mathlib.Algebra.Order.Floor.Ring
import Mathlib.Data.Rat.Floor
import Mathlib.Order.Lattice
import Mathlib.Tactic.Linarith

/-!
# `datetime` and `timedelta`

Instants and durations of Python's `datetime` module, counted in microseconds.
Both types are bounded: a `timedelta` spans at most 999999999 days and a
`datetime` lies between the years 1 and 9999.  The bounds are fields of the
structures, so a value outside them cannot be built and every arithmetic
operation that may leave them returns `overflowError` instead.

The seconds of a float-valued `timedelta` are an exact rational, rounded once to
microseconds, half to even, as the constructor rounds them; the doubles that the
seconds of a `timedelta` are read back as are those of `Floats`.
-/

namespace FeedgateFetcher.Python

/-- The built-in exceptions that the modelled library functions raise. -/
inductive PyError where
  | valueError
  | typeError
  | overflowError
  | zeroDivisionError
deriving DecidableEq, Repr

abbrev microsPerSecond : Int := 1000000

abbrev microsPerDay : Int := 86400000000

/-! ## Durations -/

/-- `datetime.timedelta`. -/
@[ext]
structure Timedelta where
  micros : Int
  ge_min : -999999999 * microsPerDay ≤ micros
  lt_max : micros < 1000000000 * microsPerDay
deriving DecidableEq, Repr

namespace Timedelta

def ofMicros (m : Int) : Except PyError Timedelta :=
  if h : -999999999 * microsPerDay ≤ m ∧ m < 1000000000 * microsPerDay then
    .ok ⟨m, h.1, h.2⟩
  else
    .error .overflowError

/-- `timedelta(days=n)`. -/
def ofDays (n : Int) : Except PyError Timedelta := ofMicros (n * microsPerDay)

/-- `timedelta(seconds=n)` for an `int`. -/
def ofSeconds (n : Int) : Except PyError Timedelta := ofMicros (n * microsPerSecond)

theorem ofMicros_eq_ok_iff {m : Int} {d : Timedelta} : ofMicros m = .ok d ↔ d.micros = m := by
  unfold ofMicros
  constructor
  · intro h
    split at h
    · cases h; rfl
    · cases h
  · intro h
    subst h
    rw [dif_pos ⟨d.ge_min, d.lt_max⟩]

theorem ofMicros_isOk_iff {m : Int} :
    (∃ d, ofMicros m = .ok d) ↔
      -999999999 * microsPerDay ≤ m ∧ m < 1000000000 * microsPerDay := by
  constructor
  · rintro ⟨d, h⟩
    rw [ofMicros_eq_ok_iff] at h
    exact h ▸ ⟨d.ge_min, d.lt_max⟩
  · intro h
    exact ⟨⟨m, h.1, h.2⟩, ofMicros_eq_ok_iff.mpr rfl⟩

/-- Python's `round`: to the nearest integer, half to even. -/
def roundHalfEven (q : ℚ) : Int :=
  let f := ⌊q⌋
  if q - f < 1 / 2 then f
  else if 1 / 2 < q - f then f + 1
  else if f % 2 = 0 then f else f + 1

/-- `timedelta(seconds=q)` for a `float`. -/
def ofSecondsFloat (q : ℚ) : Except PyError Timedelta := ofMicros (roundHalfEven (q * 1000000))

@[simp] theorem roundHalfEven_intCast (n : Int) : roundHalfEven (n : ℚ) = n := by
  simp [roundHalfEven]

theorem roundHalfEven_le_ceil (q : ℚ) : roundHalfEven q ≤ ⌊q⌋ + 1 := by
  unfold roundHalfEven
  dsimp only
  split_ifs <;> omega

theorem floor_le_roundHalfEven (q : ℚ) : ⌊q⌋ ≤ roundHalfEven q := by
  unfold roundHalfEven
  dsimp only
  split_ifs <;> omega

theorem roundHalfEven_mono {p q : ℚ} (h : p ≤ q) : roundHalfEven p ≤ roundHalfEven q := by
  rcases (Int.floor_le_floor h).lt_or_eq with hlt | heq
  · have hp := roundHalfEven_le_ceil p
    have hq := floor_le_roundHalfEven q
    omega
  · unfold roundHalfEven
    dsimp only
    rw [heq]
    split_ifs <;> first | omega | linarith

/-- A midpoint below an even integer is not rounded beyond it. -/
theorem roundHalfEven_le_iff_of_even {q : ℚ} {n : Int} (hn : n % 2 = 0) :
    roundHalfEven q ≤ n ↔ q ≤ n + 1 / 2 := by
  constructor
  · intro h
    by_contra hlt
    have hfloor : n ≤ ⌊q⌋ := Int.le_floor.mpr (by linarith)
    have heq : ⌊q⌋ = n := le_antisymm ((floor_le_roundHalfEven q).trans h) hfloor
    unfold roundHalfEven at h
    dsimp only at h
    rw [heq, if_neg (by linarith), if_pos (by linarith)] at h
    omega
  · intro h
    have hfloor : ⌊(n : ℚ) + 1 / 2⌋ = n := Int.floor_eq_iff.mpr ⟨by linarith, by linarith⟩
    have hmid : roundHalfEven ((n : ℚ) + 1 / 2) = n := by
      unfold roundHalfEven
      dsimp only
      rw [hfloor, add_sub_cancel_left, if_neg (lt_irrefl _), if_neg (lt_irrefl _), if_pos hn]
    exact hmid ▸ roundHalfEven_mono h

/-- Only what is at most half a unit above zero is rounded to zero or below. -/
theorem roundHalfEven_pos_iff (q : ℚ) : 0 < roundHalfEven q ↔ 1 / 2 < q := by
  rcases lt_trichotomy ⌊q⌋ 0 with h | h | h
  · have hq : q < 0 := by exact_mod_cast Int.floor_lt.mp h
    have hr : roundHalfEven q ≤ 0 := (roundHalfEven_le_ceil q).trans (by omega)
    constructor
    · intro hp; omega
    · intro hp; linarith
  · have hlt : q < 1 := by
      have := Int.lt_floor_add_one q
      rw [h] at this
      simpa using this
    unfold roundHalfEven
    simp only [h, Int.cast_zero, sub_zero]
    split_ifs <;> first | omega | (constructor <;> intro hp <;> first | omega | linarith)
  · have hq : (1 : ℚ) ≤ q := by
      have := Int.floor_le q
      have h1 : ((1 : Int) : ℚ) ≤ (⌊q⌋ : ℚ) := by exact_mod_cast h
      simp only [Int.cast_one] at h1
      linarith
    have hr := floor_le_roundHalfEven q
    constructor
    · intro _; linarith
    · intro _; omega

end Timedelta

/-! ## Instants -/

/-- The microseconds between `datetime.min` and the end of the year 9999. -/
abbrev maxMicros : Int := 3652059 * microsPerDay - 1

/-- An offset-aware `datetime.datetime` in UTC, as microseconds since
`datetime.min`. -/
@[ext]
structure Datetime where
  micros : Int
  nonneg : 0 ≤ micros
  le_max : micros ≤ maxMicros
deriving DecidableEq, Repr

namespace Datetime

theorem micros_injective : Function.Injective micros := fun _ _ h ↦ Datetime.ext h

instance : LinearOrder Datetime := LinearOrder.lift' micros micros_injective

theorem le_def {a b : Datetime} : a ≤ b ↔ a.micros ≤ b.micros := Iff.rfl

theorem lt_def {a b : Datetime} : a < b ↔ a.micros < b.micros := Iff.rfl

def ofMicros (m : Int) : Except PyError Datetime :=
  if h : 0 ≤ m ∧ m ≤ maxMicros then .ok ⟨m, h.1, h.2⟩ else .error .overflowError

/-- `t + d`. -/
def add (t : Datetime) (d : Timedelta) : Except PyError Datetime := ofMicros (t.micros + d.micros)

/-- `t - d` for a `timedelta`. -/
def subDelta (t : Datetime) (d : Timedelta) : Except PyError Datetime :=
  ofMicros (t.micros - d.micros)

/-- `t - s` for two instants; a difference of instants is always a `timedelta`. -/
def sub (t s : Datetime) : Timedelta where
  micros := t.micros - s.micros
  ge_min := by have := t.nonneg; have := s.le_max; simp only [maxMicros, microsPerDay] at *; omega
  lt_max := by have := t.le_max; have := s.nonneg; simp only [maxMicros, microsPerDay] at *; omega

@[simp] theorem sub_micros (t s : Datetime) : (t.sub s).micros = t.micros - s.micros := rfl

theorem ofMicros_eq_ok_iff {m : Int} {t : Datetime} : ofMicros m = .ok t ↔ t.micros = m := by
  unfold ofMicros
  constructor
  · intro h
    split at h
    · cases h; rfl
    · cases h
  · intro h
    subst h
    rw [dif_pos ⟨t.nonneg, t.le_max⟩]

theorem add_eq_ok_iff {t s : Datetime} {d : Timedelta} :
    t.add d = .ok s ↔ s.micros = t.micros + d.micros := ofMicros_eq_ok_iff

theorem subDelta_eq_ok_iff {t s : Datetime} {d : Timedelta} :
    t.subDelta d = .ok s ↔ s.micros = t.micros - d.micros := ofMicros_eq_ok_iff

/-! ### Calendar fields -/

def isLeap (y : Nat) : Bool := y % 4 == 0 && (y % 100 != 0 || y % 400 == 0)

def daysInMonth (y m : Nat) : Nat :=
  match m with
  | 1 | 3 | 5 | 7 | 8 | 10 | 12 => 31
  | 4 | 6 | 9 | 11 => 30
  | 2 => if isLeap y then 29 else 28
  | _ => 0

/-- Days before the first of January of the year `y`. -/
def daysBeforeYear (y : Nat) : Nat := (y - 1) * 365 + (y - 1) / 4 - (y - 1) / 100 + (y - 1) / 400

/-- Days of the year `y` before the first of its month `m`. -/
def daysBeforeMonth (y m : Nat) : Nat :=
  ((List.range (m - 1)).map fun i ↦ daysInMonth y (i + 1)).sum

/-- The largest magnitude of an `int` that the C implementation of the
constructor accepts as a field before it looks at the field's own range. -/
abbrev cIntMax : Int := 2147483647

/-- `datetime.datetime(year, month, day, hour, minute, second)`. -/
def ofFields (year month day hour minute second : Int) : Except PyError Datetime :=
  if [year, month, day, hour, minute, second].any fun n ↦ cIntMax < n || n < -cIntMax - 1 then
    .error .overflowError
  else if 1 ≤ year ∧ year ≤ 9999 ∧ 1 ≤ month ∧ month ≤ 12 ∧ 1 ≤ day ∧
      day ≤ daysInMonth year.toNat month.toNat ∧ 0 ≤ hour ∧ hour ≤ 23 ∧ 0 ≤ minute ∧
      minute ≤ 59 ∧ 0 ≤ second ∧ second ≤ 59 then
    let days : Int := daysBeforeYear year.toNat + daysBeforeMonth year.toNat month.toNat + (day - 1)
    ofMicros (days * microsPerDay + (hour * 3600 + minute * 60 + second) * microsPerSecond)
  else
    .error .valueError

/-- `datetime.min`. -/
def earliest : Datetime := ⟨0, by decide, by decide⟩

/-- The first instant of the year 2000. -/
def year2000 : Datetime := ⟨63082281600000000, by decide, by decide⟩

/-- The first instant of the year 2101. -/
def year2101 : Datetime := ⟨66269577600000000, by decide, by decide⟩

example : ofFields 2000 1 1 0 0 0 = .ok year2000 ∧ ofFields 2101 1 1 0 0 0 = .ok year2101 := by
  decide

example : ofFields 1 1 1 0 0 0 = .ok earliest := by decide

example : (ofFields 9999 12 31 23 59 59).map micros = .ok (maxMicros - 999999) := by decide

end Datetime

end FeedgateFetcher.Python
