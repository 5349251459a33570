import FeedgateFetcher.Config
import FeedgateFetcher.Models
import FeedgateFetcher.Python.Email

/-!
# Response policy

The pure helpers of `fetch_one`: the content-type filter, the three readers of
scheduling hints, and the choice of the next fetch instant.
-/

namespace FeedgateFetcher

open Python

/-! ## Headers -/

/-- `httpx.Headers`: the fields of a response in the order they were received. -/
abbrev Headers := List (Text × Text)

/-- `headers.get(name)`: field names are case-insensitive, repeated fields are joined. -/
def Headers.get (headers : Headers) (name : Text) : Option Text :=
  match (headers.filter fun h ↦ Text.lower h.1 == Text.lower name).map Prod.snd with
  | [] => none
  | v :: vs => some (vs.foldl (fun acc w ↦ acc ++ ", ".toList ++ w) v)

/-! ## Content type -/

def notAFeedContentTypes : List Text :=
  ["text/html", "application/xhtml+xml", "application/json", "application/ld+json"].map
    String.toList

/-- `is_not_a_feed_content_type`. -/
def isNotAFeedContentType : Option Text → Bool
  | none => false
  | some [] => false
  | some ct => notAFeedContentTypes.contains (Text.lower (Text.strip (Text.partition ';' ct).1))

/-! ## Hints -/

/-- Read a date header: `None` when it does not parse, its distance from `now`
otherwise.  Only `TypeError` and `ValueError` are caught. -/
def dateHint (header : Text) (now : Datetime) : Except PyError (Option Int) :=
  match Email.parsedateToDatetime header with
  | .ok p => .ok (some (max 0 (p.secondsAfter now)))
  | .error .valueError => .ok none
  | .error .typeError => .ok none
  | .error e => .error e

/-- `parse_retry_after`. -/
def parseRetryAfter (header : Option Text) (now : Datetime) : Except PyError (Option Int) :=
  match header with
  | none => .ok none
  | some h =>
    let stripped := Text.strip h
    match Text.toInt stripped with
    | .ok n => .ok (some (max 0 n))
    | .error _ => dateHint stripped now

/-- The loop over the directives of `Cache-Control`: the first `max-age` that is
an integer. -/
def maxAge : List Text → Option Int
  | [] => none
  | part :: parts =>
    let stripped := Text.strip part
    if Text.startswith "max-age=".toList (Text.lower stripped) then
      match Text.toInt (stripped.drop 8) with
      | .ok n => some (max 0 n)
      | .error _ => maxAge parts
    else maxAge parts

/-- `parse_cache_hint`. -/
def parseCacheHint (headers : Headers) (now : Datetime) : Except PyError (Option Int) :=
  match maxAge (Text.split ',' ((headers.get "cache-control".toList).getD [])) with
  | some n => .ok (some n)
  | none => match headers.get "expires".toList with
    | none => .ok none
    | some [] => .ok none
    | some h => dateHint h now

theorem dateHint_nonneg {h : Text} {now : Datetime} {n : Int} (hn : dateHint h now = .ok (some n)) :
    0 ≤ n := by
  unfold dateHint at hn
  split at hn <;> cases hn
  exact le_max_left _ _

theorem maxAge_nonneg {parts : List Text} {n : Int} (h : maxAge parts = some n) : 0 ≤ n := by
  induction parts with
  | nil => cases h
  | cons part parts ih =>
      simp only [maxAge] at h
      split at h
      · split at h
        · cases h
          exact le_max_left _ _
        · exact ih h
      · exact ih h

/-- A hint is never negative. -/
theorem parseCacheHint_nonneg {headers : Headers} {now : Datetime} {n : Int}
    (h : parseCacheHint headers now = .ok (some n)) : 0 ≤ n := by
  unfold parseCacheHint at h
  split at h
  · rename_i hm
    cases h
    exact maxAge_nonneg hm
  · split at h
    · cases h
    · cases h
    · exact dateHint_nonneg h

theorem parseRetryAfter_nonneg {header : Option Text} {now : Datetime} {n : Int}
    (h : parseRetryAfter header now = .ok (some n)) : 0 ≤ n := by
  unfold parseRetryAfter at h
  split at h
  · cases h
  · dsimp only at h
    split at h
    · cases h
      exact le_max_left _ _
    · exact dateHint_nonneg h

/-! ## The next fetch -/

/-- A value of `random.random()`. -/
structure Draw where
  value : ℚ
  nonneg : 0 ≤ value
  lt_one : value < 1

/-- `random.uniform(a, b)`. -/
def Draw.uniform (u : Draw) (a b : ℚ) : ℚ := a + (b - a) * u.value

/-- `now + timedelta(seconds=n)` for an `int`. -/
def addWholeSeconds (now : Datetime) (n : Int) : Except PyError Datetime := do
  let d ← Timedelta.ofSeconds n
  now.add d

/-- `now + timedelta(seconds=q)` for a `float`. -/
def addSeconds (now : Datetime) (q : ℚ) : Except PyError Datetime := do
  let d ← Timedelta.ofSecondsFloat q
  now.add d

/-- Whatever a sum of an instant and a duration is, the duration is in range. -/
theorem add_ofMicros_eq_ok_iff {now t : Datetime} {m : Int} :
    (Timedelta.ofMicros m >>= now.add) = .ok t ↔ t.micros = now.micros + m := by
  constructor
  · intro h
    cases hd : Timedelta.ofMicros m with
    | error e =>
        rw [hd] at h
        cases h
    | ok d =>
        rw [hd] at h
        rw [Datetime.add_eq_ok_iff.mp h, Timedelta.ofMicros_eq_ok_iff.mp hd]
  · intro h
    obtain ⟨d, hd⟩ : ∃ d, Timedelta.ofMicros m = .ok d := by
      have h₁ := now.nonneg
      have h₂ := now.le_max
      have h₃ := t.nonneg
      have h₄ := t.le_max
      refine Timedelta.ofMicros_isOk_iff.mpr ?_
      simp only [maxMicros, microsPerDay] at *
      omega
    rw [hd]
    exact Datetime.add_eq_ok_iff.mpr (by rw [h, Timedelta.ofMicros_eq_ok_iff.mp hd])

theorem addWholeSeconds_eq_ok_iff {now t : Datetime} {n : Int} :
    addWholeSeconds now n = .ok t ↔ t.micros = now.micros + n * microsPerSecond :=
  add_ofMicros_eq_ok_iff

theorem addSeconds_eq_ok_iff {now t : Datetime} {q : ℚ} :
    addSeconds now q = .ok t ↔ t.micros = now.micros + Timedelta.roundHalfEven (q * 1000000) :=
  add_ofMicros_eq_ok_iff

/-- Seven days of seconds over the expected number of new entries, clamped. -/
def frequencyInterval (cfg : Settings) (weeklyEntryCount : Nat) : ℚ :=
  max (cfg.entryFrequencyMinIntervalSeconds : ℚ)
    (min ((7 * 24 * 3600 : ℚ) / (weeklyEntryCount * cfg.entryFrequencyFactor : Int))
      (cfg.entryFrequencyMaxIntervalSeconds : ℚ))

/-- The interval of a feed that is not broken, before the hint of its server. -/
def regularInterval (cfg : Settings) (weeklyEntryCount : Nat) : Except PyError ℚ :=
  if 0 < weeklyEntryCount then
    if weeklyEntryCount * cfg.entryFrequencyFactor = 0 then .error .zeroDivisionError
    else .ok (frequencyInterval cfg weeklyEntryCount)
  else .ok cfg.fetchIntervalSeconds

/-- The capped exponential backoff of a broken feed. -/
def brokenBackoff (cfg : Settings) (consecutiveFailures : Int) : Int :=
  let excess := max 0 (consecutiveFailures - cfg.brokenThreshold)
  min (cfg.fetchIntervalSeconds * 2 ^ excess.toNat) cfg.brokenMaxBackoffSeconds

/-- The backoff of a broken feed with its jitter. -/
def jitteredBackoff (cfg : Settings) (consecutiveFailures : Int) (u : Draw) : ℚ :=
  let capped : ℚ := brokenBackoff cfg consecutiveFailures
  let span := cfg.backoffJitterRatio * capped
  capped + u.uniform (-span) span

/-- `compute_next_fetch_at`. -/
def computeNextFetchAt (cfg : Settings) (feed : Feed) (now : Datetime) (serverHint : Option Int)
    (weeklyEntryCount : Nat) (u : Draw) : Except PyError Datetime :=
  if feed.status ≠ .broken then do
    let computed ← regularInterval cfg weeklyEntryCount
    addSeconds now (max computed (serverHint.getD 0 : Int))
  else
    addSeconds now (jitteredBackoff cfg feed.consecutiveFailures u)

end FeedgateFetcher
