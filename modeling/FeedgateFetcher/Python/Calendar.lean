import FeedgateFetcher.Python.Isoformat

/-!
# The proleptic Gregorian calendar

`ord_to_ymd` gives the date of an ordinal, that is, of the day with this number from the first of
January of the year 1 on.
-/

namespace FeedgateFetcher.Python

namespace Datetime

theorem daysInMonth_congr {y z : Nat} (h : isLeap y = isLeap z) (m : Nat) :
    daysInMonth y m = daysInMonth z m := by
  unfold daysInMonth
  rw [h]

theorem daysBeforeMonth_congr {y z : Nat} (h : isLeap y = isLeap z) (m : Nat) :
    daysBeforeMonth y m = daysBeforeMonth z m := by
  unfold daysBeforeMonth
  exact congrArg List.sum (List.map_congr_left fun i _ ↦ daysInMonth_congr h (i + 1))

/-- Whatever depends on the lengths of the months only can be seen in the years 1 and 4. -/
theorem isLeap_cases (y : Nat) : isLeap y = isLeap 1 ∨ isLeap y = isLeap 4 := by
  cases h : isLeap y with
  | false => exact .inl rfl
  | true => exact .inr rfl

end Datetime

namespace PyDatetime

open Datetime

/-- The date of an existing day. -/
def IsDate (ymd : Nat × Nat × Nat) : Prop :=
  (1 ≤ ymd.1 ∧ ymd.1 ≤ 9999) ∧ (1 ≤ ymd.2.1 ∧ ymd.2.1 ≤ 12) ∧
    1 ≤ ymd.2.2 ∧ ymd.2.2 ≤ daysInMonth ymd.1 ymd.2.1

/-- The month in which a day of the year lies, both counted from zero days on. -/
def monthOf (year n : Nat) : Nat :=
  1 + (List.range 11).countP fun i ↦ daysBeforeMonth year (i + 2) ≤ n

theorem monthOf_congr {y z : Nat} (h : isLeap y = isLeap z) (n : Nat) :
    monthOf y n = monthOf z n := by
  unfold monthOf
  refine congrArg (1 + ·) (List.countP_congr fun i _ ↦ ?_)
  rw [daysBeforeMonth_congr h]

/-- A day of the year lies in its month. -/
theorem monthOf_spec (year n : Nat) (h : n < 365) :
    (1 ≤ monthOf year n ∧ monthOf year n ≤ 12) ∧ daysBeforeMonth year (monthOf year n) ≤ n ∧
      n - daysBeforeMonth year (monthOf year n) + 1 ≤ daysInMonth year (monthOf year n) := by
  have hall : ∀ y ∈ [1, 4], ∀ k ∈ List.range 365, (1 ≤ monthOf y k ∧ monthOf y k ≤ 12) ∧
      daysBeforeMonth y (monthOf y k) ≤ k ∧
        k - daysBeforeMonth y (monthOf y k) + 1 ≤ daysInMonth y (monthOf y k) := by
    decide +kernel
  have hrange : n ∈ List.range 365 := List.mem_range.mpr h
  rcases isLeap_cases year with hleap | hleap
  · rw [monthOf_congr hleap, daysBeforeMonth_congr hleap, daysInMonth_congr hleap]
    exact hall 1 (by decide) n hrange
  · rw [monthOf_congr hleap, daysBeforeMonth_congr hleap, daysInMonth_congr hleap]
    exact hall 4 (by decide) n hrange

/-- The days before a year, for a year in its place in the cycles of 400, 100 and 4 years. -/
theorem daysBeforeYear_cycles {a b c d : Nat} (hb : b ≤ 3) (hc : c ≤ 24) (hd : d ≤ 3) :
    daysBeforeYear (a * 400 + 1 + b * 100 + c * 4 + d) =
      a * 146097 + b * 36524 + c * 1461 + d * 365 := by
  unfold daysBeforeYear
  omega

theorem isLeap_iff {y : Nat} : isLeap y = true ↔ y % 4 = 0 ∧ (y % 100 ≠ 0 ∨ y % 400 = 0) := by
  simp [isLeap]

/-- The last day of a leap year, which is also the last one of a cycle. -/
theorem ymdToOrd_leapEnd {y : Nat} (h : isLeap y = true) :
    ymdToOrd y 12 31 = daysBeforeYear y + 366 := by
  have hdecember : daysBeforeMonth y 12 = 335 := by
    rw [daysBeforeMonth_congr (show isLeap y = isLeap 4 from h)]
    decide
  rw [ymdToOrd, hdecember]

/-- The number of a day from the beginning on, by its year's place in the cycles. -/
theorem ymdToOrd_monthOf {a b c d r : Nat} (hb : b ≤ 3) (hc : c ≤ 24) (hd : d ≤ 3) (hr : r < 365) :
    let year := a * 400 + 1 + b * 100 + c * 4 + d
    ymdToOrd year (monthOf year r) (r - daysBeforeMonth year (monthOf year r) + 1) =
      a * 146097 + b * 36524 + c * 1461 + d * 365 + r + 1 := by
  intro year
  have hmonth := (monthOf_spec year r hr).2.1
  rw [ymdToOrd, daysBeforeYear_cycles hb hc hd]
  omega

/-- The date of an ordinal exists, and has this ordinal. -/
theorem ordToYmd_spec {n : Nat} (h : 1 ≤ n) (hn : n ≤ 3652059) :
    IsDate (ordToYmd n) ∧
      ymdToOrd (ordToYmd n).1 (ordToYmd n).2.1 (ordToYmd n).2.2 = n := by
  unfold ordToYmd
  extract_lets n₀ n400 n₁ n100 n₂ n4 n₃ n1 n₄ year month
  have h400 : n400 ≤ 24 := by omega
  have h100 : n100 ≤ 4 := by omega
  have h4 : n4 ≤ 24 := by omega
  have h1 : n1 ≤ 4 := by omega
  have hsplit : n = n400 * 146097 + n100 * 36524 + n4 * 1461 + n1 * 365 + n₄ + 1 := by omega
  split
  · rename_i hcycle
    have hyear : 1 ≤ year - 1 ∧ year - 1 ≤ 9999 := by omega
    refine ⟨⟨hyear, ⟨le_add_self, le_refl _⟩, le_add_self, le_refl _⟩, ?_⟩
    rcases Nat.lt_or_ge n100 4 with hlt | hge
    · -- the last year of four
      have hlast : n1 = 4 ∧ n₄ = 0 ∧ n4 ≤ 23 := by omega
      have hyear : year - 1 = n400 * 400 + 1 + n100 * 100 + n4 * 4 + 3 := by omega
      have hleap : isLeap (year - 1) = true := isLeap_iff.mpr (by omega)
      rw [ymdToOrd_leapEnd hleap, hyear,
        daysBeforeYear_cycles (Nat.le_of_lt_succ hlt) h4 (le_refl 3)]
      omega
    · -- the last year of four hundred
      have hlast : n100 = 4 ∧ n4 = 0 ∧ n1 = 0 ∧ n₄ = 0 := by omega
      have hyear : year - 1 = n400 * 400 + 1 + 3 * 100 + 24 * 4 + 3 := by omega
      have hleap : isLeap (year - 1) = true := isLeap_iff.mpr (by omega)
      rw [ymdToOrd_leapEnd hleap, hyear,
        daysBeforeYear_cycles (le_refl 3) (le_refl 24) (le_refl 3)]
      omega
  · rename_i hcycle
    have hb : n100 ≤ 3 := by omega
    have hd : n1 ≤ 3 := by omega
    have hr : n₄ < 365 := by omega
    have hyear : 1 ≤ year ∧ year ≤ 9999 := by omega
    obtain ⟨hmonth, -, hday⟩ := monthOf_spec year n₄ hr
    refine ⟨⟨hyear, hmonth, le_add_self, hday⟩, ?_⟩
    rw [hsplit]
    exact ymdToOrd_monthOf hb h4 hd hr

/-! ## Instants -/

/-- The reading of the wall clock, in microseconds from the beginning of the year 1 on. -/
def wallMicros (t : PyDatetime) : Int :=
  ((ymdToOrd t.year t.month t.day : Int) - 1) * microsPerDay +
    (t.hour * 3600 + t.minute * 60 + t.second) * microsPerSecond + t.microsecond

/-- `t` is an aware `datetime` of this instant. -/
def Denotes (t : PyDatetime) (instant : Datetime) : Prop :=
  ∃ offset ∈ t.utcoffset, t.wallMicros - offset = instant.micros

end PyDatetime

namespace Datetime

/-- The number of the day from the first of January of the year 1 on. -/
def ordinal (t : Datetime) : Nat := (t.micros / microsPerDay).toNat + 1

theorem ordinal_mem (t : Datetime) : 1 ≤ t.ordinal ∧ t.ordinal ≤ 3652059 := by
  have hmin := t.nonneg
  have hmax := t.le_max
  simp only [ordinal, maxMicros, microsPerDay] at *
  omega

/-- The instant on the wall clock of UTC, as an aware `datetime`. -/
def toUtc (t : Datetime) : PyDatetime where
  year := (PyDatetime.ordToYmd t.ordinal).1
  month := (PyDatetime.ordToYmd t.ordinal).2.1
  day := (PyDatetime.ordToYmd t.ordinal).2.2
  hour := (t.micros % microsPerDay / 3600000000).toNat
  minute := (t.micros % microsPerDay / 60000000 % 60).toNat
  second := (t.micros % microsPerDay / 1000000 % 60).toNat
  microsecond := (t.micros % microsPerDay % 1000000).toNat
  utcoffset := some 0
  date_valid := (PyDatetime.ordToYmd_spec t.ordinal_mem.1 t.ordinal_mem.2).1
  time_valid := by
    simp only [microsPerDay]
    omega
  offset_valid := by
    intro d hd
    cases hd
    decide

theorem denotes_toUtc (t : Datetime) : t.toUtc.Denotes t := by
  refine ⟨0, rfl, ?_⟩
  have hordinal : (PyDatetime.ymdToOrd t.toUtc.year t.toUtc.month t.toUtc.day : Int) - 1 =
      t.micros / microsPerDay := by
    have hspec : PyDatetime.ymdToOrd t.toUtc.year t.toUtc.month t.toUtc.day = t.ordinal :=
      (PyDatetime.ordToYmd_spec t.ordinal_mem.1 t.ordinal_mem.2).2
    have hnonneg : 0 ≤ t.micros / microsPerDay := Int.ediv_nonneg t.nonneg (by decide)
    rw [hspec, ordinal]
    omega
  have hclock : ((t.toUtc.hour : Int) * 3600 + t.toUtc.minute * 60 + t.toUtc.second) *
      microsPerSecond + t.toUtc.microsecond = t.micros % microsPerDay := by
    show (((t.micros % microsPerDay / 3600000000).toNat : Int) * 3600 +
      (t.micros % microsPerDay / 60000000 % 60).toNat * 60 +
      (t.micros % microsPerDay / 1000000 % 60).toNat) * microsPerSecond +
      (t.micros % microsPerDay % 1000000).toNat = t.micros % microsPerDay
    simp only [microsPerDay, microsPerSecond]
    omega
  rw [PyDatetime.wallMicros, hordinal, sub_zero, Int.add_assoc, hclock]
  simp only [microsPerDay]
  omega

end Datetime

end FeedgateFetcher.Python
