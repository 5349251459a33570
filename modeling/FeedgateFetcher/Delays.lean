import FeedgateFetcher.Polling
import FeedgateFetcher.Runs
import FeedgateFetcher.Scheduling

/-!
# The shortest delay

However an exchange ends, a `fetch_one` that returns puts its feed off by at least a delay
that the configuration alone determines.
-/

namespace FeedgateFetcher

open Python Logic

/-- The shortest delay, in microseconds: that of an interval, or of a broken feed's backoff with
the most negative jitter. -/
def Settings.shortestDelay (cfg : Settings) : Int :=
  min (min cfg.fetchIntervalSeconds cfg.entryFrequencyMinIntervalSeconds * microsPerSecond)
    ⌊(1 - cfg.backoffJitterRatio) *
      (min cfg.fetchIntervalSeconds cfg.brokenMaxBackoffSeconds : Int) * 1000000⌋

section

variable {up : Upstream} {cfg : Settings} {now next : Datetime} {weekly : Nat} {s t : FetchState}

theorem le_regularInterval {c : ℚ} (h : regularInterval cfg weekly = .ok c) :
    (min cfg.fetchIntervalSeconds cfg.entryFrequencyMinIntervalSeconds : Int) ≤ c := by
  unfold regularInterval at h
  split at h
  · split at h
    · cases h
    · cases h
      have hmin : (min cfg.fetchIntervalSeconds cfg.entryFrequencyMinIntervalSeconds : Int) ≤
          (cfg.entryFrequencyMinIntervalSeconds : ℚ) := by
        exact_mod_cast min_le_right _ _
      exact hmin.trans (le_max_left _ _)
  · cases h
    exact_mod_cast min_le_left _ _

theorem le_jitteredBackoff (hcfg : cfg.Valid) (failures : Int) (u : Draw) :
    (1 - cfg.backoffJitterRatio) *
        (min cfg.fetchIntervalSeconds cfg.brokenMaxBackoffSeconds : Int) ≤
      jitteredBackoff cfg failures u := by
  have hcap : min cfg.fetchIntervalSeconds cfg.brokenMaxBackoffSeconds ≤
      brokenBackoff cfg failures := by
    refine min_le_min_right _ (le_mul_of_one_le_right hcfg.interval_pos.le ?_)
    exact one_le_pow₀ (by decide)
  have hcap' : ((min cfg.fetchIntervalSeconds cfg.brokenMaxBackoffSeconds : Int) : ℚ) ≤
      brokenBackoff cfg failures := by exact_mod_cast hcap
  have hpos : (0 : ℚ) ≤ brokenBackoff cfg failures := by
    exact_mod_cast (le_min hcfg.interval_pos.le hcfg.backoff_pos.le).trans hcap
  have hr : 0 ≤ 1 - cfg.backoffJitterRatio := sub_nonneg.mpr hcfg.jitter_lt_one.le
  have hspread : 0 ≤ cfg.backoffJitterRatio * brokenBackoff cfg failures * (2 * u.value) :=
    mul_nonneg (mul_nonneg hcfg.jitter_nonneg hpos) (mul_nonneg two_pos.le u.nonneg)
  calc (1 - cfg.backoffJitterRatio) *
        (min cfg.fetchIntervalSeconds cfg.brokenMaxBackoffSeconds : Int)
      ≤ (1 - cfg.backoffJitterRatio) * brokenBackoff cfg failures :=
        mul_le_mul_of_nonneg_left hcap' hr
    _ ≤ (1 - cfg.backoffJitterRatio) * brokenBackoff cfg failures +
          cfg.backoffJitterRatio * brokenBackoff cfg failures * (2 * u.value) :=
        le_add_of_nonneg_right hspread
    _ = jitteredBackoff cfg failures u := by
        simp only [jitteredBackoff, Draw.uniform]
        ring

/-- A duration of at least some microseconds puts an instant off by at least as many. -/
theorem addSeconds_delay {q : ℚ} {m : Int} (hm : (m : ℚ) ≤ q * 1000000)
    (h : addSeconds now q = .ok next) : now.micros + m ≤ next.micros := by
  have heq := addSeconds_eq_ok_iff.mp h
  have hround := roundHalfEven_mono_int hm
  omega

theorem computeNextFetchAt_delay (hcfg : cfg.Valid) {feed : Feed} {hint : Option Int} {u : Draw}
    (h : computeNextFetchAt cfg feed now hint weekly u = .ok next) :
    now.micros + cfg.shortestDelay ≤ next.micros := by
  unfold computeNextFetchAt at h
  split at h
  · cases hc : regularInterval cfg weekly with
    | error e =>
        rw [hc] at h
        cases h
    | ok c =>
        rw [hc] at h
        refine addSeconds_delay ?_ h
        have hle := (le_regularInterval hc).trans (le_max_left c ((hint.getD 0 : Int) : ℚ))
        have hmin : (cfg.shortestDelay : ℚ) ≤
            (min cfg.fetchIntervalSeconds cfg.entryFrequencyMinIntervalSeconds : Int) *
              1000000 := by
          exact_mod_cast min_le_left _ _
        linarith
  · refine addSeconds_delay ?_ h
    have hle := le_jitteredBackoff hcfg feed.consecutiveFailures u
    have hfloor : (cfg.shortestDelay : ℚ) ≤ (1 - cfg.backoffJitterRatio) *
        (min cfg.fetchIntervalSeconds cfg.brokenMaxBackoffSeconds : Int) * 1000000 :=
      (Int.cast_le.mpr (min_le_right _ _)).trans (Int.floor_le _)
    linarith

/-! ## The call -/

/-- The feed is put off, if the call came to an end. -/
def PutOff {α : Type} (cfg : Settings) (now : Datetime) (r : Except Exc α) (t : FetchState) :
    Prop :=
  r.isOk = true → now.micros + cfg.shortestDelay ≤ t.feed.nextFetchAt.micros

theorem schedule_putOff (hcfg : cfg.Valid) (s : FetchState) :
    Act.Ensures (schedule up cfg now weekly) s (PutOff cfg now) := by
  rw [Act.Ensures, schedule_eq]
  cases hn : computeNextFetchAt cfg s.feed now s.serverHint weekly up.draw with
  | error e => exact nofun
  | ok next => exact fun _ ↦ computeNextFetchAt_delay hcfg hn

theorem handleNotModified_putOff (hcfg : cfg.Valid) (headers : Headers) (s : FetchState) :
    Act.Ensures (handleNotModified up cfg now weekly headers) s (PutOff cfg now) := by
  rw [Act.Ensures]
  cases hh : parseCacheHint headers now with
  | error e =>
      rw [handleNotModified_of_hint_error hh]
      exact nofun
  | ok hint =>
      rw [handleNotModified_of_hint hh]
      cases hn : computeNextFetchAt cfg (s.mark cfg (.notModified now)).feed now hint weekly
          up.draw with
      | error e => exact nofun
      | ok next => exact fun _ ↦ computeNextFetchAt_delay hcfg hn

theorem handleRateLimited_putOff (headers : Headers) (s : FetchState) :
    Act.Ensures (handleRateLimited cfg now headers) s (PutOff cfg now) := by
  rw [Act.Ensures]
  cases hr : parseRetryAfter (headers.get "retry-after".toList) now with
  | error e =>
      rw [handleRateLimited_of_error hr]
      exact nofun
  | ok retryAfter =>
      rw [handleRateLimited_of_ok hr]
      cases hn : addWholeSeconds now (max (retryAfter.getD 0) cfg.fetchIntervalSeconds) with
      | error e => exact nofun
      | ok next =>
          intro _
          have heq := addWholeSeconds_eq_ok_iff.mp hn
          have hle : cfg.shortestDelay ≤
              max (retryAfter.getD 0) cfg.fetchIntervalSeconds * microsPerSecond :=
            (min_le_left _ _).trans (Int.mul_le_mul_of_nonneg_right
              ((min_le_left _ _).trans (le_max_right _ _)) (by decide))
          show now.micros + cfg.shortestDelay ≤ next.micros
          omega

/-- What follows the `try` block puts the feed off, unless a branch has returned from the call. -/
theorem conclude_putOff (hcfg : cfg.Valid) {run : Except Exc Flow × FetchState}
    (hreturned : run.1 = .ok .returned → PutOff cfg now run.1 run.2) :
    PutOff cfg now (conclude up cfg now weekly run).1 (conclude up cfg now weekly run).2 := by
  rcases run with ⟨exc | _ | _, s₂⟩
  · rw [conclude]
    rcases hr : recordFailure cfg now exc s₂ with ⟨exc' | flow, s₃⟩
    · rw [Act.bind_of_error hr]
      intro hok
      cases hok
    · rw [Act.bind_of_ok hr]
      exact schedule_putOff hcfg s₃
  · exact fun _ ↦ hreturned rfl rfl
  · exact schedule_putOff hcfg s₂

/-- Whatever the server answers, a call that returns puts its feed off. -/
theorem fetchOne_putOff (hcfg : cfg.Valid) (s : FetchState) :
    Act.Ensures (fetchOne up cfg now) s (PutOff cfg now) := by
  rcases hp : prepare up now s with ⟨exc | weekly, s₁⟩
  · rw [Act.Ensures, fetchOne, Act.bind_of_error hp]
    intro hok
    cases hok
  rw [Act.Ensures, fetchOne_of_prepared hp, attempt_eq]
  refine conclude_putOff hcfg fun hreturned ↦ ?_
  rcases hc : contact up cfg s₁ with ⟨exc | x, s₂⟩
  · rw [Act.bind_of_error hc]
    intro hok
    cases hok
  rw [Act.bind_of_ok hc] at hreturned ⊢
  cases x with
  | notModified headers => exact handleNotModified_putOff hcfg headers s₂
  | rateLimited headers => exact handleRateLimited_putOff headers s₂
  | document headers body => cases storeDocument_flow (Prod.ext hreturned rfl)

/-- So does a `_process_feed` that is committed. -/
theorem processing_delay (hcfg : cfg.Valid) (h : isDurable (processing up cfg now s) = true) :
    now.micros + cfg.shortestDelay ≤ (processing up cfg now s).2.feed.nextFetchAt.micros := by
  obtain ⟨s₁, s₂, -, hf, hc⟩ := processing_of_durable h
  have hput : Act.Ensures (fetchOne up cfg now) s₁ (PutOff cfg now) := fetchOne_putOff hcfg s₁
  rw [Act.Ensures, hf] at hput
  rw [commit_frame hc]
  exact hput rfl

end

end FeedgateFetcher
