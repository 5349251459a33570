import Mathlib.Tactic.NormNum
import Mathlib.Tactic.Positivity
import FeedgateFetcher.Fetcher.Aftermath

/-!
# When the next fetch is scheduled

Every way through `fetch_one` ends in the choice of the next instant.  For a valid
configuration the choice succeeds, and lies in the future, exactly when the hint
it uses does not lead beyond the year 9999 and, for a broken feed, the backoff
does not vanish in the rounding to microseconds.
-/

namespace FeedgateFetcher

open Python Logic

/-- The seconds of a year. -/
def yearSeconds : Int := 366 * 86400

/-- The configurations for which scheduling is meant to work. -/
structure Settings.Valid (cfg : Settings) : Prop where
  interval_pos : 0 < cfg.fetchIntervalSeconds
  interval_le : cfg.fetchIntervalSeconds ≤ yearSeconds
  backoff_pos : 0 < cfg.brokenMaxBackoffSeconds
  backoff_le : cfg.brokenMaxBackoffSeconds ≤ yearSeconds
  frequency_pos : 0 < cfg.entryFrequencyMinIntervalSeconds
  frequency_le : cfg.entryFrequencyMinIntervalSeconds ≤ cfg.entryFrequencyMaxIntervalSeconds
  frequency_le_year : cfg.entryFrequencyMaxIntervalSeconds ≤ yearSeconds
  factor_pos : 1 ≤ cfg.entryFrequencyFactor
  jitter_nonneg : 0 ≤ cfg.backoffJitterRatio
  jitter_lt_one : cfg.backoffJitterRatio < 1

/-- A hint that does not lead beyond the year 9999. -/
def Fits (now : Datetime) (hint : Option Int) : Prop :=
  now.micros + hint.getD 0 * microsPerSecond ≤ maxMicros

instance (now : Datetime) (hint : Option Int) : Decidable (Fits now hint) :=
  inferInstanceAs (Decidable (_ ≤ _))

/-! ## The two intervals -/

section

variable {up : Upstream} {cfg : Settings} {now : Datetime} {weekly : Nat}

theorem regularInterval_ok (hcfg : cfg.Valid) (weekly : Nat) :
    ∃ c, regularInterval cfg weekly = .ok c ∧ 1 ≤ c ∧ c ≤ yearSeconds := by
  have hmin : (1 : ℚ) ≤ cfg.entryFrequencyMinIntervalSeconds := by
    exact_mod_cast hcfg.frequency_pos
  have hle : (cfg.entryFrequencyMinIntervalSeconds : ℚ) ≤ cfg.entryFrequencyMaxIntervalSeconds := by
    exact_mod_cast hcfg.frequency_le
  have hmax : (cfg.entryFrequencyMaxIntervalSeconds : ℚ) ≤ yearSeconds := by
    exact_mod_cast hcfg.frequency_le_year
  unfold regularInterval
  by_cases hw : 0 < weekly
  · have hne : (weekly : Int) * cfg.entryFrequencyFactor ≠ 0 := by
      have := hcfg.factor_pos
      positivity
    rw [if_pos hw, if_neg hne]
    refine ⟨_, rfl, hmin.trans (le_max_left _ _), ?_⟩
    exact max_le (hle.trans hmax) ((min_le_right _ _).trans hmax)
  · rw [if_neg hw]
    refine ⟨_, rfl, ?_, ?_⟩
    · exact_mod_cast hcfg.interval_pos
    · exact_mod_cast hcfg.interval_le

theorem jitteredBackoff_mem (hcfg : cfg.Valid) (failures : Int) (u : Draw) :
    0 < jitteredBackoff cfg failures u ∧ jitteredBackoff cfg failures u ≤ 2 * yearSeconds := by
  have hcap : 1 ≤ brokenBackoff cfg failures ∧ brokenBackoff cfg failures ≤ yearSeconds := by
    refine ⟨le_min ?_ hcfg.backoff_pos, (min_le_right _ _).trans hcfg.backoff_le⟩
    exact Int.mul_pos hcfg.interval_pos (by positivity)
  obtain ⟨h₁, h₂⟩ := hcap
  have h₁' : (1 : ℚ) ≤ brokenBackoff cfg failures := by exact_mod_cast h₁
  have h₂' : (brokenBackoff cfg failures : ℚ) ≤ yearSeconds := by exact_mod_cast h₂
  have hr₀ := hcfg.jitter_nonneg
  have hr₁ := hcfg.jitter_lt_one
  have hu₀ := u.nonneg
  have hu₁ := u.lt_one
  have heq : jitteredBackoff cfg failures u =
      brokenBackoff cfg failures * (1 + cfg.backoffJitterRatio * (2 * u.value - 1)) := by
    simp only [jitteredBackoff, Draw.uniform]
    ring
  have hlo : 0 < 1 + cfg.backoffJitterRatio * (2 * u.value - 1) := by nlinarith
  have hhi : 1 + cfg.backoffJitterRatio * (2 * u.value - 1) ≤ 2 := by nlinarith
  rw [heq]
  constructor
  · exact mul_pos (by linarith) hlo
  · nlinarith

/-! ## The choice -/

/-- The choice succeeds for a lifecycle and a hint: a broken feed needs a backoff of more than
half a microsecond, any other one a hint that fits. -/
def Schedulable (cfg : Settings) (now : Datetime) (u : Draw) (hint : Option Int) (l : Lifecycle) :
    Prop :=
  if l.status = .broken then 1 / 2 < jitteredBackoff cfg l.consecutiveFailures u * 1000000
  else Fits now hint

theorem exists_datetime_iff {m : Int} : (∃ t : Datetime, t.micros = m) ↔ 0 ≤ m ∧ m ≤ maxMicros := by
  constructor
  · rintro ⟨t, rfl⟩
    exact ⟨t.nonneg, t.le_max⟩
  · rintro ⟨h₁, h₂⟩
    exact ⟨⟨m, h₁, h₂⟩, rfl⟩

theorem roundHalfEven_mono_int {q : ℚ} {n : Int} (h : (n : ℚ) ≤ q) :
    n ≤ Timedelta.roundHalfEven q :=
  (Int.le_floor.mpr h).trans (Timedelta.floor_le_roundHalfEven q)

theorem roundHalfEven_le_int {q : ℚ} {n : Int} (h : q ≤ n) : Timedelta.roundHalfEven q ≤ n + 1 :=
  (Timedelta.roundHalfEven_le_ceil q).trans
    (Int.add_le_add_right (Int.floor_le_iff.mpr (by linarith)) 1)

theorem addSeconds_future_iff {q : ℚ} (hnow : now < .year2101) (hq : q ≤ 2 * yearSeconds) :
    (∃ t, addSeconds now q = .ok t ∧ now < t) ↔ 1 / 2 < q * 1000000 := by
  rw [← Timedelta.roundHalfEven_pos_iff]
  constructor
  · rintro ⟨t, ht, hlt⟩
    have heq := addSeconds_eq_ok_iff.mp ht
    rw [Datetime.lt_def] at hlt
    omega
  · intro hpos
    have hle : Timedelta.roundHalfEven (q * 1000000) ≤ 2 * yearSeconds * 1000000 + 1 := by
      refine roundHalfEven_le_int ?_
      push_cast
      linarith
    have hn : now.micros < 66269577600000000 := hnow
    obtain ⟨t, ht⟩ := (exists_datetime_iff
      (m := now.micros + Timedelta.roundHalfEven (q * 1000000))).mpr (by
        have := now.nonneg
        simp only [maxMicros, microsPerDay, yearSeconds] at *
        omega)
    refine ⟨t, addSeconds_eq_ok_iff.mpr ht, ?_⟩
    rw [Datetime.lt_def]
    omega

/-- The longer of an interval and a hint. -/
theorem addSeconds_max_future_iff {c : ℚ} {n : Int} (hnow : now < .year2101) (hc : 1 ≤ c)
    (hc' : c ≤ yearSeconds) :
    (∃ t, addSeconds now (max c n) = .ok t ∧ now < t) ↔
      now.micros + n * microsPerSecond ≤ maxMicros := by
  have hn : now.micros < 66269577600000000 := hnow
  rcases le_total (n : ℚ) c with h | h
  · rw [max_eq_left h, addSeconds_future_iff hnow (by linarith)]
    have hle : n ≤ yearSeconds := by exact_mod_cast h.trans hc'
    refine iff_of_true (by linarith) ?_
    simp only [maxMicros, microsPerDay, microsPerSecond, yearSeconds] at *
    omega
  · have hpos : 1 ≤ n := by exact_mod_cast hc.trans h
    have hround : Timedelta.roundHalfEven ((n : ℚ) * 1000000) = n * microsPerSecond := by
      rw [← Timedelta.roundHalfEven_intCast (n * microsPerSecond)]
      push_cast
      rfl
    rw [max_eq_right h]
    constructor
    · rintro ⟨t, ht, -⟩
      have heq := addSeconds_eq_ok_iff.mp ht
      rw [hround] at heq
      exact heq ▸ t.le_max
    · intro hle
      obtain ⟨t, ht⟩ := exists_datetime_iff.mpr ⟨by
        have := now.nonneg
        simp only [microsPerSecond]
        omega, hle⟩
      refine ⟨t, addSeconds_eq_ok_iff.mpr (by rw [hround, ht]), ?_⟩
      rw [Datetime.lt_def, ht]
      simp only [microsPerSecond]
      omega

theorem computeNextFetchAt_future_iff (hcfg : cfg.Valid) (hnow : now < .year2101) (weekly : Nat)
    (feed : Feed) (hint : Option Int) (u : Draw) :
    (∃ t, computeNextFetchAt cfg feed now hint weekly u = .ok t ∧ now < t) ↔
      Schedulable cfg now u hint feed.lifecycle := by
  unfold computeNextFetchAt Schedulable
  by_cases hs : feed.status = .broken
  · have hb : feed.lifecycle.status = .broken := hs
    rw [if_neg (not_not.mpr hs), if_pos hb]
    exact addSeconds_future_iff hnow (jitteredBackoff_mem hcfg _ _).2
  · have hb : feed.lifecycle.status ≠ .broken := hs
    obtain ⟨c, hc, h₁, h₂⟩ := regularInterval_ok hcfg weekly
    rw [if_pos hs, if_neg hb, hc]
    exact addSeconds_max_future_iff hnow h₁ h₂

/-- Unless the feed is broken, whatever is chosen lies in the future. -/
theorem computeNextFetchAt_future (hcfg : cfg.Valid) {feed : Feed} {hint : Option Int} {u : Draw}
    {t : Datetime} (hs : feed.status ≠ .broken)
    (h : computeNextFetchAt cfg feed now hint weekly u = .ok t) : now < t := by
  obtain ⟨c, hc, h₁, -⟩ := regularInterval_ok hcfg weekly
  unfold computeNextFetchAt at h
  rw [if_pos hs, hc] at h
  have heq := addSeconds_eq_ok_iff.mp h
  have hle : (1000000 : Int) ≤
      Timedelta.roundHalfEven (max c ((hint.getD 0 : Int) : ℚ) * 1000000) := by
    refine roundHalfEven_mono_int ?_
    push_cast
    have := le_max_left c ((hint.getD 0 : Int) : ℚ)
    linarith
  rw [Datetime.lt_def]
  omega

/-! ## The end of a call -/

/-- A call returned and left the feed scheduled. -/
def Scheduled (now : Datetime) (run : Except Exc PUnit × FetchState) : Prop :=
  run.1 = .ok ⟨⟩ ∧ now < run.2.feed.nextFetchAt

/-- A failure can be recorded, and the next fetch scheduled after it. -/
structure FailureSchedulable (cfg : Settings) (now : Datetime) (u : Draw) (hint : Option Int)
    (code : ErrorCode) (l : Lifecycle) : Prop where
  days : code ≠ .http410 → l.status = .broken ∨ (l.count code).Breaks cfg.brokenThreshold →
    DaysFit cfg.deadDurationDays
  schedulable : Schedulable cfg now u hint
    ((Mark.failure now code).apply cfg.brokenThreshold cfg.deadDurationDays l)

variable {s t : FetchState}

theorem schedule_scheduled_iff (hcfg : cfg.Valid) (hnow : now < .year2101) :
    Scheduled now (schedule up cfg now weekly s) ↔
      Schedulable cfg now up.draw s.serverHint s.feed.lifecycle := by
  rw [← computeNextFetchAt_future_iff hcfg hnow weekly, schedule_eq]
  cases computeNextFetchAt cfg s.feed now s.serverHint weekly up.draw with
  | error e => exact ⟨fun h ↦ (nomatch h.1), fun ⟨_, h, _⟩ ↦ (nomatch h)⟩
  | ok next => exact ⟨fun h ↦ ⟨next, rfl, h.2⟩, fun ⟨_, h, hlt⟩ ↦ ⟨rfl, Except.ok.inj h ▸ hlt⟩⟩

theorem recordFailure_scheduled_iff (hcfg : cfg.Valid) (hnow : now < .year2101) (exc : Exc) :
    Scheduled now ((recordFailure cfg now exc >>= fun _ ↦ schedule up cfg now weekly) s) ↔
      FailureSchedulable cfg now up.draw s.serverHint (classifyError exc) s.feed.lifecycle := by
  have hrun : markFetchFailure now (classifyError exc) cfg.brokenThreshold cfg.deadDurationDays
        s.row = (.ok ⟨⟩, s.row.mark cfg.brokenThreshold cfg.deadDurationDays
          (.failure now (classifyError exc))) →
      (Scheduled now ((recordFailure cfg now exc >>= fun _ ↦ schedule up cfg now weekly) s) ↔
        Schedulable cfg now up.draw s.serverHint ((Mark.failure now (classifyError exc)).apply
          cfg.brokenThreshold cfg.deadDurationDays s.feed.lifecycle)) := by
    intro h
    rw [Act.bind_of_ok (recordFailure_of_ok h)]
    exact schedule_scheduled_iff hcfg hnow
  cases hd : Timedelta.ofDays cfg.deadDurationDays with
  | ok d =>
      rw [hrun (markFetchFailure_of_ok hd s.row)]
      exact ⟨fun h ↦ ⟨fun _ _ ↦ daysFit_iff.mpr ⟨d, hd⟩, h⟩, fun h ↦ h.schedulable⟩
  | error e =>
      have hm := markFetchFailure_of_error now (classifyError exc)
        cfg.brokenThreshold hd s.row
      have hnot : ¬DaysFit cfg.deadDurationDays := by
        rw [daysFit_iff, hd]
        exact fun ⟨_, h⟩ ↦ nomatch h
      split at hm
      · rename_i hc
        rw [Act.bind_of_error (recordFailure_of_error hm)]
        exact ⟨fun h ↦ (nomatch h.1), fun h ↦ absurd (h.days hc.1 hc.2) hnot⟩
      · rename_i hc
        rw [hrun hm]
        exact ⟨fun h ↦ ⟨fun h₁ h₂ ↦ absurd ⟨h₁, h₂⟩ hc, h⟩, fun h ↦ h.schedulable⟩

/-! ## The branches -/

/-- A call that got this document can schedule the next fetch. -/
def DocumentSchedulable (up : Upstream) (cfg : Settings) (now : Datetime) (s : FetchState)
    (headers : Headers) (body : Bytes) : Prop :=
  if isNotAFeedContentType (headers.get "content-type".toList) then
    FailureSchedulable cfg now up.draw none .notAFeed s.feed.lifecycle
  else match parseFeed up.feedparser body with
    | .error _ => FailureSchedulable cfg now up.draw none .other s.feed.lifecycle
    | .ok parsed =>
      (¬StoreAccepted up cfg s (s.session.executed + 1) parsed →
        FailureSchedulable cfg now up.draw none .other s.feed.lifecycle) ∧
      (StoreAccepted up cfg s (s.session.executed + 1) parsed →
        match parseCacheHint headers now with
        | .error _ => FailureSchedulable cfg now up.draw none .other
            ((Mark.success now).apply cfg.brokenThreshold cfg.deadDurationDays s.feed.lifecycle)
        | .ok hint => Fits now (combineTtl hint parsed.ttlSeconds))

/-- A call that got this answer can schedule the next fetch. -/
def AnswerSchedulable (up : Upstream) (cfg : Settings) (now : Datetime) (s : FetchState) :
    Exchange → Prop
  | .notModified headers =>
    let after := (Mark.notModified now).apply cfg.brokenThreshold cfg.deadDurationDays
      s.feed.lifecycle
    match parseCacheHint headers now with
    | .error _ => FailureSchedulable cfg now up.draw none .other after
    | .ok hint => Fits now hint ∨ FailureSchedulable cfg now up.draw hint .other after
  | .rateLimited headers =>
    match parseRetryAfter (headers.get "retry-after".toList) now with
    | .error _ => FailureSchedulable cfg now up.draw none .other s.feed.lifecycle
    | .ok wait =>
      Fits now wait ∨ FailureSchedulable cfg now up.draw none .other s.feed.lifecycle
  | .document headers body => DocumentSchedulable up cfg now s headers body

variable {headers : Headers} {body : Bytes} {s' : FetchState}

theorem schedulable_of_ne_broken {u : Draw} {hint : Option Int} {l : Lifecycle}
    (h : l.status ≠ .broken) : Schedulable cfg now u hint l ↔ Fits now hint := by
  rw [Schedulable, if_neg h]

theorem handleNotModified_scheduled_iff (hcfg : cfg.Valid) (hnow : now < .year2101)
    (h : Reached now s s') :
    Scheduled now (conclude up cfg now weekly (handleNotModified up cfg now weekly headers s')) ↔
      AnswerSchedulable up cfg now s (.notModified headers) := by
  have hlife : (s'.mark cfg (.notModified now)).feed.lifecycle = (Mark.notModified now).apply
      cfg.brokenThreshold cfg.deadDurationDays s.feed.lifecycle := by
    rw [← h.lifecycle]
    rfl
  have hne := apply_notModified_ne_broken now cfg.brokenThreshold cfg.deadDurationDays
    s.feed.lifecycle
  unfold AnswerSchedulable
  dsimp only
  cases hh : parseCacheHint headers now with
  | error e =>
      rw [handleNotModified_of_hint_error hh, ← hlife, ← h.serverHint]
      exact recordFailure_scheduled_iff hcfg hnow _
  | ok hint =>
      rw [handleNotModified_of_hint hh]
      have hiff := (computeNextFetchAt_future_iff hcfg hnow weekly
        (s'.mark cfg (.notModified now)).feed hint up.draw).trans
          ((iff_of_eq (by rw [hlife])).trans (schedulable_of_ne_broken hne))
      cases hc : computeNextFetchAt cfg (s'.mark cfg (.notModified now)).feed now hint weekly
          up.draw with
      | error e =>
          -- the hint has been put down, so it is used again after the failure
          have hnot : ¬Fits now hint := by
            rw [← hiff, hc]
            exact fun ⟨_, hn, _⟩ ↦ (nomatch hn)
          refine Iff.trans ?_ (or_iff_right hnot).symm
          rw [← hlife]
          exact recordFailure_scheduled_iff
            (s := (s'.mark cfg (.notModified now)).withHint hint) hcfg hnow _
      | ok next =>
          have hlt : now < next := by
            refine computeNextFetchAt_future hcfg ?_ hc
            have hstatus := congrArg Lifecycle.status hlife
            exact fun hb ↦ hne (hstatus.symm.trans hb)
          exact iff_of_true ⟨rfl, hlt⟩ (.inl (hiff.mp ⟨next, hc, hlt⟩))

/-- The code recorded by a 429 has no say in what follows. -/
theorem failureSchedulable_rateLimited {u : Draw} {hint : Option Int} {code : ErrorCode}
    {l : Lifecycle} :
    FailureSchedulable cfg now u hint code
        (Mark.rateLimited.apply cfg.brokenThreshold cfg.deadDurationDays l) ↔
      FailureSchedulable cfg now u hint code l :=
  ⟨fun h ↦ ⟨h.days, h.schedulable⟩, fun h ↦ ⟨h.days, h.schedulable⟩⟩

theorem handleRateLimited_scheduled_iff (hcfg : cfg.Valid) (hnow : now < .year2101)
    (h : Reached now s s') :
    Scheduled now (conclude up cfg now weekly (handleRateLimited cfg now headers s')) ↔
      AnswerSchedulable up cfg now s (.rateLimited headers) := by
  unfold AnswerSchedulable
  dsimp only
  cases hh : parseRetryAfter (headers.get "retry-after".toList) now with
  | error e =>
      rw [handleRateLimited_of_error hh, ← h.lifecycle, ← h.serverHint]
      exact recordFailure_scheduled_iff hcfg hnow _
  | ok wait =>
      have hn : now.micros < 66269577600000000 := hnow
      have hpos := hcfg.interval_pos
      have hle := hcfg.interval_le
      have hfits : Fits now wait ↔ now.micros +
          max (wait.getD 0) cfg.fetchIntervalSeconds * microsPerSecond ≤ maxMicros := by
        unfold Fits
        simp only [yearSeconds, maxMicros, microsPerDay, microsPerSecond] at *
        omega
      rw [handleRateLimited_of_ok hh]
      cases hw : addWholeSeconds now (max (wait.getD 0) cfg.fetchIntervalSeconds) with
      | error e =>
          have hnot : ¬Fits now wait := by
            rw [hfits]
            intro hmax
            obtain ⟨t, ht⟩ := exists_datetime_iff.mpr ⟨by
              have := now.nonneg
              simp only [microsPerSecond]
              omega, hmax⟩
            have hok := addWholeSeconds_eq_ok_iff.mpr ht
            rw [hw] at hok
            cases hok
          refine Iff.trans ?_ (or_iff_right hnot).symm
          rw [← h.lifecycle, ← h.serverHint, ← failureSchedulable_rateLimited]
          exact recordFailure_scheduled_iff (s := s'.mark cfg .rateLimited) hcfg hnow _
      | ok next =>
          have heq := addWholeSeconds_eq_ok_iff.mp hw
          have hlt : now < next := by
            rw [Datetime.lt_def]
            simp only [microsPerSecond] at heq
            omega
          exact iff_of_true ⟨rfl, hlt⟩ (.inl (hfits.mpr (heq ▸ next.le_max)))

theorem storeDocument_scheduled_iff (hcfg : cfg.Valid) (hnow : now < .year2101)
    (h : Reached now s s') (hs : s.session.abortedBy = none) :
    Scheduled now (conclude up cfg now weekly (storeDocument up cfg now headers body s')) ↔
      DocumentSchedulable up cfg now s headers body := by
  have hs' : s'.session.abortedBy = none := by
    rw [h.session]
    exact hs
  unfold DocumentSchedulable
  cases hct : isNotAFeedContentType (headers.get "content-type".toList) with
  | true =>
      rw [storeDocument_of_html hct, if_pos rfl, ← h.lifecycle, ← h.serverHint]
      exact recordFailure_scheduled_iff hcfg hnow _
  | false =>
      rw [if_neg Bool.false_ne_true]
      cases hp : parseFeed up.feedparser body with
      | error exc =>
          rw [storeDocument_of_parse_error hct hp, ← h.lifecycle, ← h.serverHint,
            ← classifyError_parseFeed hp]
          exact recordFailure_scheduled_iff hcfg hnow _
      | ok parsed =>
          dsimp only
          by_cases hacc : StoreAccepted up cfg s (s.session.executed + 1) parsed
          · obtain ⟨n, hst⟩ := storeEntries_of_accepted now hs' (h.storeAccepted.mpr hacc)
            rw [storeDocument_of_stored hct hp hst]
            generalize hstored : ({ s' with session := _ } : FetchState) = t
            have hlife : (t.succeed cfg now parsed.title headers).feed.lifecycle =
                (Mark.success now).apply cfg.brokenThreshold cfg.deadDurationDays
                  s.feed.lifecycle := by
              subst hstored
              rw [← h.lifecycle]
              exact congrArg Prod.fst (FetchState.succeed_history cfg now parsed.title headers _)
            have hnone : (t.succeed cfg now parsed.title headers).serverHint = none := by
              subst hstored
              exact h.serverHint
            refine Iff.trans ?_ (and_iff_right fun hn ↦ absurd hacc hn).symm
            refine Iff.trans ?_ (forall_prop_of_true hacc).symm
            cases hh : parseCacheHint headers now with
            | error e =>
                dsimp only
                rw [← hlife, ← hnone]
                exact recordFailure_scheduled_iff hcfg hnow _
            | ok hint =>
                dsimp only
                have hactive : (t.succeed cfg now parsed.title headers).feed.lifecycle.status ≠
                    .broken := by
                  rw [hlife, Mark.apply_success]
                  exact nofun
                rw [← schedulable_of_ne_broken hactive (u := up.draw)]
                exact schedule_scheduled_iff (s := ((t.succeed cfg now parsed.title
                  headers).withHint (combineTtl hint parsed.ttlSeconds)).observe .success) hcfg hnow
          · obtain ⟨d, hst, -⟩ := storeEntries_of_rejected now hs'
              (mt h.storeAccepted.mp hacc)
            rw [storeDocument_of_store_error hct hp hst, ← h.lifecycle, ← h.serverHint]
            refine Iff.trans ?_ (and_iff_left fun hn ↦ absurd hn hacc).symm
            refine Iff.trans ?_ (forall_prop_of_true hacc).symm
            exact recordFailure_scheduled_iff (s := { s' with session := d }) hcfg hnow _

/-! ## The call -/

/-- A call can schedule the next fetch, whether it gets an answer or not. -/
def CallSchedulable (up : Upstream) (cfg : Settings) (now : Datetime) (s : FetchState) : Prop :=
  match answerOf up cfg now s with
  | some x => AnswerSchedulable up cfg now s x
  | none => ∀ code ∈ failureCode up cfg now s,
    FailureSchedulable cfg now up.draw none code s.feed.lifecycle

theorem prepare_of_accepted (up : Upstream) (hnow : .year2000 ≤ now)
    (hs : s.session.abortedBy = none) (hq : up.statementFails s.session.executed = false) :
    ∃ weekly s₁, prepare up now s = (.ok weekly, s₁) := by
  have hn : (63082281600000000 : Int) ≤ now.micros := hnow
  obtain ⟨cutoff, hc⟩ := exists_datetime_iff (m := now.micros - week.micros).mpr (by
    have := now.le_max
    simp only [maxMicros, microsPerDay, week] at *
    omega)
  rw [prepare_eq, Datetime.subDelta_eq_ok_iff.mpr hc]
  exact ⟨_, _, onSession_of_run (Session.execute_of_accepted hs hq)⟩

/-- For a valid configuration and an instant of this century, a call returns and leaves the feed
scheduled for later exactly when its answer, or the failure to get one, can be scheduled. -/
theorem fetchOne_scheduled_iff (hcfg : cfg.Valid) (hnow : .year2000 ≤ now) (hnow' : now < .year2101)
    (hs : s.session.abortedBy = none) (hq : up.statementFails s.session.executed = false) :
    (fetchOne up cfg now s).1 = .ok ⟨⟩ ∧ now < (fetchOne up cfg now s).2.feed.nextFetchAt ↔
      CallSchedulable up cfg now s := by
  obtain ⟨weekly, s₁, hp⟩ := prepare_of_accepted up hnow hs hq
  change Scheduled now (fetchOne up cfg now s) ↔ _
  rw [fetchOne_of_prepared hp, attempt_eq]
  unfold CallSchedulable answerOf failureCode
  rw [hp]
  dsimp only
  rw [attempt_eq]
  rcases hc : contact up cfg s₁ with ⟨exc | x, s'⟩
  · have hr := Reached.of_contact hp hc
    rw [Act.bind_of_error hc, ← hr.lifecycle, ← hr.serverHint]
    refine (recordFailure_scheduled_iff hcfg hnow' exc).trans ?_
    exact ⟨fun h code hcode ↦ Option.mem_some.mp hcode ▸ h, fun h ↦ h _ rfl⟩
  · have hr := Reached.of_contact hp hc
    rw [Act.bind_of_ok hc]
    cases x with
    | notModified headers => exact handleNotModified_scheduled_iff hcfg hnow' hr
    | rateLimited headers => exact handleRateLimited_scheduled_iff hcfg hnow' hr
    | document headers body => exact storeDocument_scheduled_iff hcfg hnow' hr hs

end

theorem Settings.valid_default : ({} : Settings).Valid where
  interval_pos := by decide
  interval_le := by decide
  backoff_pos := by decide
  backoff_le := by decide
  frequency_pos := by decide
  frequency_le := by decide
  frequency_le_year := by decide
  factor_pos := by decide
  jitter_nonneg := by norm_num
  jitter_lt_one := by norm_num

/-- An origin that asks to be left alone for thirty million years. -/
def distantMaxAge : Upstream :=
  { Upstream.answering
      ⟨200, [("Cache-Control".toList, "max-age=999999999999999".toList)], [], none⟩ with
    feedparser := fun _ ↦ some {} }

/-- The call raises, although the document was stored and marked as a success. -/
theorem distantMaxAge_raises :
    (fetchOne distantMaxAge {} .year2000 .firstFetch).1 = .error (.builtin .overflowError) ∧
    (fetchOne distantMaxAge {} .year2000 .firstFetch).2.observed = [.success] ∧
    ¬((fetchOne distantMaxAge {} .year2000 .firstFetch).1 = .ok ⟨⟩ ∧
      Datetime.year2000 <
        (fetchOne distantMaxAge {} .year2000 .firstFetch).2.feed.nextFetchAt) := by
  have h : (fetchOne distantMaxAge {} .year2000 .firstFetch).1 =
      .error (.builtin .overflowError) := by
    decide +kernel
  refine ⟨h, by decide +kernel, fun hok ↦ ?_⟩
  cases h.symm.trans hok.1

/-- A fetch that times out is scheduled. -/
theorem timeout_scheduled :
    (fetchOne .silent {} .year2000 .firstFetch).1 = .ok ⟨⟩ ∧
      Datetime.year2000 < (fetchOne .silent {} .year2000 .firstFetch).2.feed.nextFetchAt := by
  refine (fetchOne_scheduled_iff Settings.valid_default (by decide) (by decide) rfl rfl).mpr ?_
  have hanswer : answerOf .silent {} .year2000 .firstFetch = none := by decide +kernel
  have hcode : failureCode .silent {} .year2000 .firstFetch = some .timeout := by decide +kernel
  rw [CallSchedulable, hanswer, hcode]
  rintro _ ⟨⟩
  refine ⟨fun _ _ ↦ ⟨by decide, by decide⟩, ?_⟩
  rw [schedulable_of_ne_broken (by decide +kernel)]
  decide

end FeedgateFetcher
