import FeedgateFetcher.Python.HttpDate
import FeedgateFetcher.RateLimiting
import FeedgateFetcher.Scheduling

/-!
# Dates in answers

`Retry-After` and `Expires` may name an instant, in any of the three formats of HTTP.  Both readers
understand all of them, and a feed that is put off until such a date is fetched within the second
before it.  Only where the date is 544 years and more ahead, the distance is rounded as a double and
the feed may be put off until thirty microseconds after the date.
-/

namespace FeedgateFetcher

open Python Logic

/-! ## What the readers make of a date -/

/-- The whole seconds until the second of an instant, none when it is past. -/
def secondsUntil (t now : Datetime) : Int :=
  max 0 (PyFloat.wholeSeconds (t.truncated.micros - now.micros))

/-- A wait of some seconds ends in the second before the second of an instant, unless the instant is
past. -/
structure EndsAt (t now : Datetime) (seconds : Int) : Prop where
  past : t.truncated ≤ now → seconds = 0
  near : now ≤ t.truncated → t.truncated.micros - now.micros < 2 ^ 34 * microsPerSecond →
    seconds = (t.truncated.micros - now.micros) / microsPerSecond
  lower : t.truncated.micros - microsPerSecond < now.micros + seconds * microsPerSecond
  upper : now.micros + seconds * microsPerSecond ≤ max now.micros (t.truncated.micros + 30)

theorem endsAt_secondsUntil (t now : Datetime) : EndsAt t now (secondsUntil t now) := by
  have hmax := t.truncated.le_max
  have hnow := now.nonneg
  rcases le_total t.truncated.micros now.micros with hle | hle
  · have hzero : secondsUntil t now = 0 :=
      max_eq_left (PyFloat.wholeSeconds_nonpos (sub_nonpos.mpr hle))
    rw [hzero]
    refine ⟨fun _ ↦ rfl, fun hle' _ ↦ ?_, ?_, ?_⟩
    · rw [le_antisymm hle hle', sub_self, Int.zero_ediv]
    · simp only [microsPerSecond]
      omega
    · exact le_max_of_le_left (by simp)
  · have hnonneg := sub_nonneg.mpr hle
    obtain ⟨hlower, hupper⟩ := PyFloat.wholeSeconds_bounds hnonneg
      (by simp only [maxMicros, microsPerDay] at hmax; omega)
    have hwait : secondsUntil t now =
        PyFloat.wholeSeconds (t.truncated.micros - now.micros) := by
      rw [secondsUntil]
      omega
    refine ⟨fun hge ↦ ?_, fun _ hnear ↦ hwait.trans (PyFloat.wholeSeconds_eq hnonneg hnear), ?_, ?_⟩
    · have heq : t.truncated.micros - now.micros = 0 := sub_eq_zero.mpr (le_antisymm hge hle)
      rw [hwait, heq, PyFloat.wholeSeconds_eq le_rfl (by decide), Int.zero_ediv]
    · rw [hwait]
      simp only [microsPerSecond]
      omega
    · rw [hwait]
      refine le_max_of_le_right ?_
      simp only [microsPerSecond]
      omega

theorem EndsAt.nonneg {t now : Datetime} {n : Int} (h : EndsAt t now n) : 0 ≤ n := by
  rcases le_total t.truncated now with hle | hle
  · exact (h.past hle).ge
  · have hlower := h.lower
    have hmicros : now.micros ≤ t.truncated.micros := hle
    simp only [microsPerSecond] at hlower
    omega

namespace HttpDate

open Python.HttpDate

variable {t now : Datetime} {f : Python.HttpDate}

theorem firstChar (t : PyDatetime) (f : Python.HttpDate) : ∃ c s, spell t f = c :: s ∧
    Text.isSpace c = false ∧ Text.digitValue c = none ∧ c ≠ '-' ∧ c ≠ '+' := by
  have hname : ∀ {w : Text}, (w.head?.any fun c ↦ !Text.isSpace c &&
      (Text.digitValue c == none && (c != '-' && c != '+'))) = true →
        ∃ c ∈ w.head?, Text.isSpace c = false ∧ Text.digitValue c = none ∧ c ≠ '-' ∧ c ≠ '+' := by
    intro w hw
    obtain ⟨c, hc, hname⟩ := (Option.any_eq_true _ _).mp hw
    refine ⟨c, hc, ?_⟩
    simpa only [Bool.and_eq_true, Bool.not_eq_true', beq_iff_eq, bne_iff_ne] using hname
  have hshort : ∀ k < 7, ((shortDayNames.getD k []).head?.any fun c ↦ !Text.isSpace c &&
      (Text.digitValue c == none && (c != '-' && c != '+'))) = true := by decide +kernel
  have hlong : ∀ k < 7, ((longDayNames.getD k []).head?.any fun c ↦ !Text.isSpace c &&
      (Text.digitValue c == none && (c != '-' && c != '+'))) = true := by decide +kernel
  have hcons : ∀ {w : Text} {ws : List Text} {P : Char → Prop}, (∃ c ∈ w.head?, P c) →
      ∃ c s, [' '].intercalate (w :: ws) = c :: s ∧ P c := by
    rintro w ws P ⟨c, hc, hP⟩
    obtain ⟨s, rfl⟩ := List.head?_eq_some_iff.mp hc
    cases ws with
    | nil => exact ⟨c, s, List.intercalate_singleton, hP⟩
    | cons v vs => exact ⟨c, _, List.intercalate_cons_cons, hP⟩
  have hcomma : ∀ {w : Text} {P : Char → Prop}, (∃ c ∈ w.head?, P c) →
      ∃ c ∈ (w ++ [',']).head?, P c := by
    rintro w P ⟨c, hc, hP⟩
    exact ⟨c, List.mem_head?_append_of_mem_head? hc, hP⟩
  cases f with
  | imfFixdate => exact hcons (hcomma (hname (hshort _ (weekday_lt t))))
  | rfc850 => exact hcons (hcomma (hname (hlong _ (weekday_lt t))))
  | asctime => exact hcons (hname (hshort _ (weekday_lt t)))

theorem getLast?_intercalate {ws : List Text} {w : Text} (h : ws.getLast? = some w) (hw : w ≠ []) :
    ([' '].intercalate ws).getLast? = w.getLast? := by
  induction ws with
  | nil => cases h
  | cons v vs ih =>
      cases vs with
      | nil =>
          obtain rfl : v = w := Option.some.inj h
          rw [List.intercalate_singleton]
      | cons u us =>
          rw [List.getLast?_cons_cons] at h
          obtain ⟨c, hc⟩ := Option.isSome_iff_exists.mp (List.getLast?_isSome.mpr hw)
          rw [List.intercalate_cons_cons, List.getLast?_append, ih h, hc]
          rfl

theorem lastChar (t : PyDatetime) (f : Python.HttpDate) :
    ∀ c ∈ (spell t f).getLast?, Text.isSpace c = false := by
  have hword : ∃ w, (words t f).getLast? = some w ∧ w ≠ [] := by
    cases f with
    | imfFixdate => exact ⟨"GMT".toList, rfl, by decide⟩
    | rfc850 => exact ⟨"GMT".toList, rfl, by decide⟩
    | asctime =>
        refine ⟨PyDatetime.zfill 4 t.year, ?_, (Text.isNumeral_zfill 4 t.year).ne_nil⟩
        rw [words, List.getLast?_cons, List.getLast?_cons, List.getLast?_append]
        rfl
  obtain ⟨w, hw, hne⟩ := hword
  intro c hc
  rw [spell, getLast?_intercalate hw hne] at hc
  exact isSpace_words t f w (List.mem_of_getLast? hw) c (List.mem_of_getLast? hc)

theorem stripWhere_spell {p : Char → Bool} (hp : ∀ c, Text.isSpace c = false → p c = false)
    (t : PyDatetime) (f : Python.HttpDate) : Text.stripWhere p (spell t f) = spell t f := by
  obtain ⟨c, s, hs, hspace, -⟩ := firstChar t f
  refine Text.stripWhere_eq_self (fun d hd ↦ ?_) fun d hd ↦ ?_
  · rw [hs] at hd
    cases hd
    rw [hp c hspace]
    exact Bool.false_ne_true
  · rw [hp d (lastChar t f d hd)]
    exact Bool.false_ne_true

theorem strip_spell (t : PyDatetime) (f : Python.HttpDate) :
    Text.strip (spell t f) = spell t f :=
  stripWhere_spell (fun _ ↦ id) t f

/-- No date is taken for a number of seconds. -/
theorem toInt_spell (t : PyDatetime) (f : Python.HttpDate) :
    Text.toInt (spell t f) = .error .valueError := by
  obtain ⟨c, s, hs, -, hdigit, hminus, hplus⟩ := firstChar t f
  have hdigits : Text.digits (c :: s) = none := by
    unfold Text.digits
    split
    · rfl
    · rename_i heq
      cases heq
      rw [hdigit]
      rfl
    · rename_i heq
      cases heq
      rw [hdigit]
      rfl
    · rename_i heq
      cases heq
      rw [hdigit]
      rfl
  have hnat : Text.toNat (c :: s) = .error .valueError := by
    rw [Text.toNat, hdigits]
  unfold Text.toInt
  rw [stripWhere_spell (fun _ ↦ Text.isIntSpace_of_isSpace), hs]
  split
  · rename_i heq
    cases heq
    exact absurd rfl hminus
  · rename_i heq
    cases heq
    exact absurd rfl hplus
  · rw [hnat]
    rfl

theorem dateHint_spell (now : Datetime) (h : f.Covers t.toUtc.year) :
    dateHint (spell t.toUtc f) now = .ok (some (secondsUntil t now)) := by
  obtain ⟨p, hp, hclock, hoffset⟩ := parsedateToDatetime_spell h
  rw [dateHint, hp]
  show Except.ok (some (max 0 (p.secondsAfter now))) = _
  rw [Email.ParsedDate.secondsAfter, hclock, hoffset, sub_zero]
  rfl

theorem parseRetryAfter_spell (now : Datetime) (h : f.Covers t.toUtc.year) :
    parseRetryAfter (some (f.spell t.toUtc)) now = .ok (some (secondsUntil t now)) := by
  rw [parseRetryAfter, strip_spell, toInt_spell]
  exact dateHint_spell now h

theorem parseCacheHint_spell {headers : Headers} (now : Datetime) (h : f.Covers t.toUtc.year)
    (hexpires : headers.get "expires".toList = some (f.spell t.toUtc))
    (hage : maxAge (Text.split ',' ((headers.get "cache-control".toList).getD [])) = none) :
    parseCacheHint headers now = .ok (some (secondsUntil t now)) := by
  obtain ⟨c, s, hs, -⟩ := firstChar t.toUtc f
  rw [parseCacheHint, hage, hexpires, hs]
  dsimp only
  rw [← hs]
  exact dateHint_spell now h

end HttpDate

/-- A date in either header, in whichever format it is written, is the wait until its instant. -/
theorem dates_understood {t now : Datetime} {f : Python.HttpDate} (h : f.Covers t.toUtc.year) :
    ∃ seconds, EndsAt t now seconds ∧
      parseRetryAfter (some (f.spell t.toUtc)) now = .ok (some seconds) ∧
      ∀ headers : Headers, headers.get "expires".toList = some (f.spell t.toUtc) →
        maxAge (Text.split ',' ((headers.get "cache-control".toList).getD [])) = none →
          parseCacheHint headers now = .ok (some seconds) :=
  ⟨secondsUntil t now, endsAt_secondsUntil t now, HttpDate.parseRetryAfter_spell now h,
    fun _ hexpires hage ↦ HttpDate.parseCacheHint_spell now h hexpires hage⟩

/-- The turn of the century, as the C library prints it, read a minute and a half before it. -/
theorem asctime_understood : ∃ seconds,
    EndsAt .year2000 ⟨63082281510000000, by decide, by decide⟩ seconds ∧
      parseRetryAfter (some "Sat Jan  1 00:00:00 2000".toList)
        ⟨63082281510000000, by decide, by decide⟩ = .ok (some seconds) := by
  have hspell : Python.HttpDate.asctime.spell Datetime.year2000.toUtc =
      "Sat Jan  1 00:00:00 2000".toList := by
    decide +kernel
  obtain ⟨seconds, hends, hretry, -⟩ := @dates_understood .year2000
    ⟨63082281510000000, by decide, by decide⟩ .asctime (by decide)
  exact ⟨seconds, hends, hspell ▸ hretry⟩

/-- The last second that a date can name, read a microsecond after a whole second: it is past when
the wait ends. -/
example : parseRetryAfter (some "Fri, 31 Dec 9999 23:59:59 GMT".toList)
    ⟨63082281600000001, by decide, by decide⟩ = .ok (some 252455615999) := by
  decide +kernel

/-! ## A rate limit with a date -/

section

variable {up : Upstream} {cfg : Settings} {now t : Datetime} {weekly : Nat} {s s₁ : FetchState}
  {response : Response} {f : Python.HttpDate}

/-- A 429 that names an instant, in any of the formats, puts the feed off until the second of this
instant, or by the base interval when that is longer. -/
theorem datedRetry_honoured (hp : prepare up now s = (.ok weekly, s₁))
    (hr : directResponse up cfg s = some response) (h429 : response.statusCode = 429)
    (hdate : response.headers.get "retry-after".toList = some (f.spell t.toUtc))
    (hcovers : f.Covers t.toUtc.year)
    (hcfg : cfg.Valid)
    (hbase : now.micros + cfg.fetchIntervalSeconds * microsPerSecond ≤ maxMicros) :
    now.micros + cfg.fetchIntervalSeconds * microsPerSecond ≤
        (fetchOne up cfg now s).2.feed.nextFetchAt.micros ∧
      t.truncated.micros - microsPerSecond < (fetchOne up cfg now s).2.feed.nextFetchAt.micros ∧
      (fetchOne up cfg now s).2.feed.nextFetchAt.micros ≤
        max (now.micros + cfg.fetchIntervalSeconds * microsPerSecond) (t.truncated.micros + 30) ∧
      (t.truncated.micros - now.micros < 2 ^ 34 * microsPerSecond →
        (fetchOne up cfg now s).2.feed.nextFetchAt.micros ≤
          max (now.micros + cfg.fetchIntervalSeconds * microsPerSecond) t.truncated.micros) := by
  have hr₁ : directResponse up cfg s₁ = some response := by
    rw [(prepare_ok hp).2, directResponse_prepared, hr]
  have hends := endsAt_secondsUntil t now
  have hwait : parseRetryAfter (response.headers.get "retry-after".toList) now =
      .ok (some (secondsUntil t now)) := by
    rw [hdate]
    exact HttpDate.parseRetryAfter_spell now hcovers
  generalize secondsUntil t now = seconds at hends hwait
  have hnonneg := hends.nonneg
  have hlower := hends.lower
  have hupper := hends.upper
  have hpos := hcfg.interval_pos
  have hnow := now.nonneg
  have hnow' := now.le_max
  have hmicros : t.truncated.micros = t.micros - t.micros % microsPerSecond := rfl
  have hmax := t.le_max
  -- the longer of the two waits ends at an instant that can be written down
  have hfits : now.micros + max seconds cfg.fetchIntervalSeconds * microsPerSecond ≤
      maxMicros := by
    rcases max_cases seconds cfg.fetchIntervalSeconds with ⟨hlonger, -⟩ | ⟨hlonger, -⟩
    · rw [hlonger]
      refine hupper.trans (max_le hnow' ?_)
      simp only [maxMicros, microsPerDay, microsPerSecond] at *
      omega
    · rw [hlonger]
      exact hbase
  have hnext := addWholeSeconds_eq_ok_iff (t := ⟨_, by simp only [microsPerSecond]; omega, hfits⟩)
    |>.mpr rfl
  rw [fetchOne_rateLimited_nextFetchAt hp hr₁ h429 hwait hnext]
  refine ⟨?_, ?_, ?_, fun hnear ↦ ?_⟩
  · simp only [microsPerSecond] at *
    omega
  · simp only [microsPerSecond] at *
    omega
  · simp only [microsPerSecond] at *
    omega
  · -- an instant that is not past is not even missed by the microseconds of a double
    rcases le_total t.truncated now with hpast | hahead
    · have hzero := hends.past hpast
      simp only [microsPerSecond] at *
      omega
    · have hexact := hends.near hahead hnear
      simp only [microsPerSecond] at *
      omega

end

/-- A date of two and a half hours later, in the format with a year of two digits. -/
theorem rfc850Retry_honoured :
    Datetime.year2000.micros + 8999 * microsPerSecond <
      (fetchOne (.answering (retryAnswer "Saturday, 01-Jan-00 02:30:00 GMT")) {} .year2000
        .firstFetch).2.feed.nextFetchAt.micros := by
  have hprepare : (prepare (.answering (retryAnswer "Saturday, 01-Jan-00 02:30:00 GMT")) .year2000
      .firstFetch).1 = .ok 0 := by
    decide +kernel
  have hr : directResponse (.answering (retryAnswer "Saturday, 01-Jan-00 02:30:00 GMT")) {}
      .firstFetch = some ⟨429, (retryAnswer "Saturday, 01-Jan-00 02:30:00 GMT").headers, [], none,
        "http://a.example/feed".toList, []⟩ := by
    decide +kernel
  have hlower := (datedRetry_honoured (t := ⟨63082290600000000, by decide, by decide⟩)
    (f := .rfc850) (Prod.ext hprepare rfl) hr rfl (by decide +kernel) (by decide)
    Settings.valid_default (by decide)).2.1
  exact lt_of_le_of_lt (by decide) hlower

end FeedgateFetcher
