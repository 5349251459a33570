import FeedgateFetcher.Delays

/-!
# Outages

An origin that does not answer any more.  The feed breaks at the threshold, is retried at delays
that the configuration bounds, and is dead as soon as it has been without a success for long
enough: the scheduler has only to come to it in time.
-/

namespace FeedgateFetcher

open Python Logic

/-- The longest delay after a failure, in microseconds: that of an interval, or of a broken feed's
longest backoff with the most positive jitter. -/
def Settings.longestDelay (cfg : Settings) : Int :=
  max (max cfg.fetchIntervalSeconds cfg.entryFrequencyMaxIntervalSeconds * microsPerSecond)
    ⌈(1 + cfg.backoffJitterRatio) * cfg.brokenMaxBackoffSeconds * 1000000⌉

section

variable {up : Upstream} {cfg : Settings} {now next : Datetime} {weekly : Nat} {s t : FetchState}

theorem regularInterval_le (hcfg : cfg.Valid) {c : ℚ} (h : regularInterval cfg weekly = .ok c) :
    c ≤ (max cfg.fetchIntervalSeconds cfg.entryFrequencyMaxIntervalSeconds : Int) := by
  unfold regularInterval at h
  split at h
  · split at h
    · cases h
    · cases h
      have hle : (cfg.entryFrequencyMinIntervalSeconds : ℚ) ≤
          cfg.entryFrequencyMaxIntervalSeconds := by
        exact_mod_cast hcfg.frequency_le
      have hmax : (cfg.entryFrequencyMaxIntervalSeconds : ℚ) ≤
          (max cfg.fetchIntervalSeconds cfg.entryFrequencyMaxIntervalSeconds : Int) := by
        exact_mod_cast le_max_right _ _
      exact (max_le hle (min_le_right _ _)).trans hmax
  · cases h
    exact_mod_cast le_max_left _ _

theorem jitteredBackoff_le (hcfg : cfg.Valid) (failures : Int) (u : Draw) :
    jitteredBackoff cfg failures u ≤
      (1 + cfg.backoffJitterRatio) * cfg.brokenMaxBackoffSeconds := by
  have hcap : (brokenBackoff cfg failures : ℚ) ≤ cfg.brokenMaxBackoffSeconds := by
    exact_mod_cast min_le_right _ _
  have hpos : 0 ≤ brokenBackoff cfg failures := by
    refine le_min (mul_nonneg hcfg.interval_pos.le ?_) hcfg.backoff_pos.le
    exact pow_nonneg (by decide) _
  have hpos' : (0 : ℚ) ≤ brokenBackoff cfg failures := by exact_mod_cast hpos
  have hspread : 0 ≤ cfg.backoffJitterRatio * brokenBackoff cfg failures *
      (2 * (1 - u.value)) :=
    mul_nonneg (mul_nonneg hcfg.jitter_nonneg hpos')
      (mul_nonneg two_pos.le (sub_nonneg.mpr u.lt_one.le))
  calc jitteredBackoff cfg failures u
      ≤ jitteredBackoff cfg failures u +
          cfg.backoffJitterRatio * brokenBackoff cfg failures * (2 * (1 - u.value)) :=
        le_add_of_nonneg_right hspread
    _ = (1 + cfg.backoffJitterRatio) * brokenBackoff cfg failures := by
        simp only [jitteredBackoff, Draw.uniform]
        ring
    _ ≤ (1 + cfg.backoffJitterRatio) * cfg.brokenMaxBackoffSeconds :=
        mul_le_mul_of_nonneg_left hcap (add_nonneg one_pos.le hcfg.jitter_nonneg)

/-- A duration of at most some microseconds puts an instant off by at most as many. -/
theorem addSeconds_within {q : ℚ} {m : Int} (hm : q * 1000000 ≤ m)
    (h : addSeconds now q = .ok next) : next.micros ≤ now.micros + m := by
  rw [addSeconds_eq_ok_iff.mp h]
  have hround : Timedelta.roundHalfEven (q * 1000000) ≤ m :=
    (Timedelta.roundHalfEven_mono hm).trans_eq (Timedelta.roundHalfEven_intCast m)
  exact Int.add_le_add_left hround _

/-- Without a hint of the server no delay is longer. -/
theorem computeNextFetchAt_within (hcfg : cfg.Valid) {feed : Feed} {u : Draw}
    (h : computeNextFetchAt cfg feed now none weekly u = .ok next) :
    next.micros ≤ now.micros + cfg.longestDelay := by
  unfold computeNextFetchAt at h
  split at h
  · obtain ⟨c, hc, hone, -⟩ := regularInterval_ok hcfg weekly
    rw [hc] at h
    refine addSeconds_within ?_ h
    have hzero : max c ((Option.getD none 0 : Int) : ℚ) = c :=
      max_eq_left ((Int.cast_zero (R := ℚ)).trans_le (zero_le_one.trans hone))
    have hle := regularInterval_le hcfg hc
    have hmax : ((max cfg.fetchIntervalSeconds cfg.entryFrequencyMaxIntervalSeconds : Int) : ℚ) *
        1000000 ≤ cfg.longestDelay := by
      exact_mod_cast le_max_left _ _
    rw [hzero]
    linarith
  · refine addSeconds_within ?_ h
    have hle := jitteredBackoff_le hcfg feed.consecutiveFailures u
    have hceil : (1 + cfg.backoffJitterRatio) * cfg.brokenMaxBackoffSeconds * 1000000 ≤
        (cfg.longestDelay : ℚ) :=
      (Int.le_ceil _).trans (Int.cast_le.mpr (le_max_right _ _))
    linarith

/-! ## One failure -/

/-- A branch that raises before the bookkeeping of its answer remembers no hint. -/
theorem respond_serverHint {x : Exchange} {exc : Exc}
    (h : respond up cfg now weekly x s = (.error exc, t)) (hb : bookkept up cfg now s x = false) :
    t.serverHint = s.serverHint := by
  cases x with
  | notModified headers => cases hb
  | rateLimited headers =>
      exact (keeps_handleRateLimited (p := FetchState.serverHint) (fun _ _ ↦ rfl)
        (fun _ _ ↦ rfl) headers).eq_of_run h
  | document headers body =>
      rw [respond] at h
      unfold bookkept at hb
      dsimp only at hb
      cases hct : isNotAFeedContentType (headers.get "content-type".toList) with
      | true =>
          rw [storeDocument_of_html hct] at h
          cases h
          rfl
      | false =>
          cases hp : parseFeed up.feedparser body with
          | error exc' =>
              rw [storeDocument_of_parse_error hct hp] at h
              cases h
              rfl
          | ok parsed =>
              have hkeep := keeps_storeEntries (p := FetchState.serverHint) up cfg now
                (fun _ _ ↦ rfl) parsed.entries s
              rcases hs : storeEntries up cfg now parsed.entries s with ⟨exc' | _, s'⟩
              · rw [storeDocument_of_store_error hct hp hs] at h
                cases h
                rw [hs] at hkeep
                exact hkeep
              · rw [hct, hp] at hb
                dsimp only at hb
                rw [hs] at hb
                cases hb

theorem attempt_serverHint {exc : Exc} {code : ErrorCode}
    (h : attempt up cfg now weekly s = (.error exc, t))
    (ho : attemptOutcome up cfg now weekly s = .failed code) : t.serverHint = s.serverHint := by
  rw [attempt_eq] at h
  rcases hc : contact up cfg s with ⟨exc' | x, s'⟩
  all_goals
    have hk := (keeps_account_contact up cfg).eq_of_run hc
    have hhint : s'.serverHint = s.serverHint := congrArg Account.serverHint hk
  · rw [Act.bind_of_error hc] at h
    cases h
    exact hhint
  · rw [Act.bind_of_ok hc] at h
    rw [attemptOutcome_of_ok hc, respondOutcome_of_error h] at ho
    cases hb : bookkept up cfg now s' x with
    | true =>
        rw [hb] at ho
        cases ho
    | false => exact (respond_serverHint h hb).trans hhint

/-- A call that records nothing but a failure puts its feed off by no more than the longest
delay. -/
theorem fetchOne_within (hcfg : cfg.Valid) {code : ErrorCode}
    (h : fetchOne up cfg now s = (.ok ⟨⟩, t)) (ho : outcomeOf up cfg now s = some (.failed code)) :
    t.feed.nextFetchAt.micros ≤ now.micros + cfg.longestDelay := by
  have hrun := fetchOne_run up cfg now s
  rw [h] at hrun
  generalize hr : (Except.ok ⟨⟩ : Except Exc PUnit) = r at hrun
  -- an outcome with a failure is that of a `try` block that raises
  have hraises : ∀ {weekly : Nat} {s₁ s₂ : FetchState} {flow : Flow},
      prepare up now s = (.ok weekly, s₁) → attempt up cfg now weekly s₁ ≠ (.ok flow, s₂) := by
    intro weekly s₁ s₂ flow hp ha
    rw [outcomeOf_of_ok hp] at ho
    have hnone := ((attempt_leaves ha).reported flow rfl).1
    rw [Option.some.inj ho] at hnone
    cases hnone
  cases hrun with
  | unprepared _ => cases hr
  | lost _ _ _ => cases hr
  | returned hp ha => exact absurd ha (hraises hp)
  | completed hp ha _ => exact absurd ha (hraises hp)
  | @failed weekly s₁ s₂ s₃ _ exc flow _ hp ha hf hs =>
      obtain ⟨-, rfl⟩ := prepare_ok hp
      rw [outcomeOf_of_ok hp] at ho
      have hhint : s₂.serverHint = none := attempt_serverHint ha (Option.some.inj ho)
      obtain ⟨-, rfl⟩ := recordFailure_flow hf
      have hhint' : ((s₂.mark cfg (.failure now (classifyError exc))).observe
          (.error (classifyError exc))).serverHint = none := hhint
      rw [schedule_eq, hhint', ← hr] at hs
      cases hn : computeNextFetchAt cfg ((s₂.mark cfg (.failure now (classifyError exc))).observe
          (.error (classifyError exc))).feed now none weekly up.draw with
      | error e =>
          rw [hn] at hs
          cases hs
      | ok next =>
          rw [hn] at hs
          cases hs
          exact computeNextFetchAt_within hcfg hn

end

/-! ## Attempts in vain -/

/-- A claim of a feed, and the `_process_feed` that follows it. -/
structure Attempt where
  up : Upstream
  now : Datetime
  leaseUntil : Datetime
  session : Session
  domains : List Text

namespace Attempt

/-- The state in which the row is loaded that the claim has leased. -/
def loaded (a : Attempt) (f : Feed) : FetchState :=
  Tracked.loaded a.session a.domains ⟨f.lease a.now a.leaseUntil, []⟩

/-- The attempt fails, and the failure is committed.  A feed that is not dead is claimed at most
`latency` microseconds after it is due. -/
structure Fails (cfg : Settings) (latency : Nat) (f : Feed) (a : Attempt) (g : Feed) : Prop where
  inTime : f.status ≠ .dead → a.now.micros ≤ f.nextFetchAt.micros + latency
  durable : isDurable (processing a.up cfg a.now (a.loaded f)) = true
  failed : ∃ code, processingOutcome a.up cfg a.now (a.loaded f) = some (.failed code)
  row : g = (processing a.up cfg a.now (a.loaded f)).2.feed

variable {cfg : Settings} {latency : Nat} {f g h : Feed} {a : Attempt} {n : Nat}

theorem Fails.lifecycle (hfails : a.Fails cfg latency f g) :
    ∃ code, g.lifecycle =
      { f.lifecycle.count code with
        status := f.lifecycle.fate cfg.brokenThreshold cfg.deadDurationDays a.now code } := by
  obtain ⟨code, hcode⟩ := hfails.failed
  obtain ⟨o, ho, -, hhistory⟩ := processing_outcome hfails.durable
  obtain rfl : o = .failed code := Option.some.inj (ho.symm.trans hcode)
  refine ⟨code, ?_⟩
  rw [hfails.row, ← Mark.apply_failure]
  exact congrArg Prod.fst hhistory

theorem Fails.within (hcfg : cfg.Valid) (hfails : a.Fails cfg latency f g) :
    g.nextFetchAt.micros ≤ a.now.micros + cfg.longestDelay := by
  obtain ⟨code, hcode⟩ := hfails.failed
  obtain ⟨s₁, s₂, hl, hf, hc⟩ := processing_of_durable hfails.durable
  unfold processingOutcome at hcode
  rw [hl] at hcode
  have hrow : g.nextFetchAt = s₂.feed.nextFetchAt := by
    rw [hfails.row, commit_frame hc]
    rfl
  rw [hrow]
  exact fetchOne_within hcfg hf hcode

/-- A dead feed stays dead. -/
theorem Fails.dead (hfails : a.Fails cfg latency f g) (hf : f.status = .dead) :
    g.status = .dead := by
  obtain ⟨code, hlife⟩ := hfails.lifecycle
  have hfate : g.status = f.lifecycle.fate cfg.brokenThreshold cfg.deadDurationDays a.now code :=
    congrArg Lifecycle.status hlife
  have hactive : f.lifecycle.status ≠ .active := by
    show f.status ≠ .active
    rw [hf]
    exact nofun
  rw [hfate, Lifecycle.fate]
  split
  · rfl
  · rw [if_neg fun hbreaks ↦ hactive hbreaks.1]
    exact hf

/-- What `n` failures since the feed was `f` have made of it, as long as it is not dead. -/
structure Dying (cfg : Settings) (latency : Nat) (f : Feed) (n : Nat) (g : Feed) : Prop where
  reference : g.reference = f.reference
  failures : g.consecutiveFailures = f.consecutiveFailures + n
  due : g.nextFetchAt.micros ≤ f.nextFetchAt.micros + n * (cfg.longestDelay + latency)
  /-- At its last failure it was not without a success for too long. -/
  hopeful : 0 < n → cfg.brokenThreshold ≤ g.consecutiveFailures →
    g.nextFetchAt.micros <
      f.reference.micros + cfg.deadDurationDays * microsPerDay + cfg.longestDelay

theorem Dying.start (f : Feed) : Dying cfg latency f 0 f where
  reference := rfl
  failures := (Int.add_zero _).symm
  due := by rw [Nat.cast_zero, Int.zero_mul, Int.add_zero]
  hopeful := nofun

/-- One more failure. -/
theorem Dying.step (hcfg : cfg.Valid) (hg : Dying cfg latency f n g)
    (hfails : a.Fails cfg latency g h) (hdead : h.status ≠ .dead) :
    Dying cfg latency f (n + 1) h := by
  have halive : g.status ≠ .dead := fun hgdead ↦ hdead (hfails.dead hgdead)
  have hwithin := hfails.within hcfg
  obtain ⟨code, hlife⟩ := hfails.lifecycle
  have hfailures : h.consecutiveFailures = g.consecutiveFailures + 1 :=
    congrArg Lifecycle.consecutiveFailures hlife
  refine ⟨?_, ?_, ?_, ?_⟩
  · exact (congrArg Lifecycle.reference hlife).trans hg.reference
  · rw [hfailures, hg.failures, Nat.cast_succ, Int.add_assoc]
  · have hdue := hg.due
    have hnow := hfails.inTime halive
    rw [Nat.cast_succ, Int.add_mul, Int.one_mul]
    omega
  · intro _ hthreshold
    have hfate : h.status =
        g.lifecycle.fate cfg.brokenThreshold cfg.deadDurationDays a.now code :=
      congrArg Lifecycle.status hlife
    have hexpires : ¬(g.lifecycle.count code).Expires cfg.brokenThreshold cfg.deadDurationDays
        a.now := by
      intro hexpires
      refine hdead (hfate.trans ?_)
      rw [Lifecycle.fate, if_pos (.inr hexpires)]
    -- a feed at the threshold is broken by now, so only the duration can have saved it
    have hbroken : (g.lifecycle.count code).status = .broken ∨
        (g.lifecycle.count code).Breaks cfg.brokenThreshold := by
      cases hs : g.status with
      | active => exact .inr ⟨hs, hthreshold.trans_eq hfailures⟩
      | broken => exact .inl hs
      | dead => exact absurd hs halive
    have helapsed : a.now.micros - g.reference.micros < cfg.deadDurationDays * microsPerDay :=
      not_le.mp fun hle ↦ hexpires ⟨hbroken, hle⟩
    rw [hg.reference] at helapsed
    omega

/-- Failures in a row. -/
theorem Dying.run (hcfg : cfg.Valid) {attempts : List Attempt}
    (hrun : Run (fun f a g ↦ a.Fails cfg latency f g) f attempts g) (hdead : g.status ≠ .dead) :
    Dying cfg latency f attempts.length g := by
  induction hrun with
  | nil => exact .start f
  | snoc _ hfails ih =>
      rw [List.length_append, List.length_singleton]
      exact (ih fun hgdead ↦ hdead (hfails.dead hgdead)).step hcfg hfails hdead

end Attempt

theorem Settings.longestDelay_pos {cfg : Settings} (hcfg : cfg.Valid) : 0 < cfg.longestDelay := by
  have hpos : 0 < max cfg.fetchIntervalSeconds cfg.entryFrequencyMaxIntervalSeconds :=
    hcfg.interval_pos.trans_le (le_max_left _ _)
  exact (Int.mul_pos hpos (by decide)).trans_le (le_max_left _ _)

/-- A feed whose attempts all fail, each of them begun in time, is dead at every instant by which
the threshold can have been reached and by which it has been without a success for too long. -/
theorem dead_in_time {cfg : Settings} {latency : Nat} {f g : Feed} {attempts : List Attempt}
    {t : Datetime} (hcfg : cfg.Valid) (hthreshold : 1 ≤ cfg.brokenThreshold)
    (hfailures : 0 ≤ f.consecutiveFailures)
    (hrun : Run (fun f a g ↦ a.Fails cfg latency f g) f attempts g)
    (hserved : g.status ≠ .dead → t.micros ≤ g.nextFetchAt.micros + latency)
    (hcount : f.nextFetchAt.micros + cfg.brokenThreshold * (cfg.longestDelay + latency) + latency <
      t.micros)
    (hduration : f.reference.micros + cfg.deadDurationDays * microsPerDay + cfg.longestDelay +
      latency ≤ t.micros) : g.status = .dead := by
  by_contra hdead
  have hdying := Attempt.Dying.run hcfg hrun hdead
  have hlate := hserved hdead
  have hdue := hdying.due
  have hdelay : 0 < cfg.longestDelay + latency := by
    have hpos := Settings.longestDelay_pos hcfg
    omega
  have hlength : cfg.brokenThreshold < attempts.length := by
    refine lt_of_mul_lt_mul_right ?_ hdelay.le
    omega
  have hhopeful := hdying.hopeful (by omega) (by rw [hdying.failures]; omega)
  omega

/-! ## Four attempts -/

theorem daysLater_bounds {days : Int} (h : 0 ≤ days ∧ days ≤ 60) :
    0 ≤ Datetime.year2000.micros + days * microsPerDay ∧
      Datetime.year2000.micros + days * microsPerDay ≤ maxMicros := by
  simp only [Datetime.year2000, maxMicros, microsPerDay]
  omega

/-- A number of days after the first of January 2000. -/
def daysLater (days : Int) (h : 0 ≤ days ∧ days ≤ 60) : Datetime :=
  ⟨Datetime.year2000.micros + days * microsPerDay, (daysLater_bounds h).1, (daysLater_bounds h).2⟩

/-- An attempt to which nobody answers. -/
def unanswered (now : Datetime) : Attempt where
  up := .silent
  now := now
  leaseUntil := now
  session := .start [] 1
  domains := []

/-- The row that an unanswered attempt leaves. -/
def afterSilence (f : Feed) (now : Datetime) : Feed :=
  (processing (unanswered now).up {} (unanswered now).now ((unanswered now).loaded f)).2.feed

/-- A feed that nobody answers for. -/
def unheard : Feed := .registered 1 "http://a.example/feed".toList .year2000 .year2000

/-- The same after one attempt every ten days. -/
def unheardOnce : Feed := afterSilence unheard (daysLater 10 (by decide))

def unheardTwice : Feed := afterSilence unheardOnce (daysLater 20 (by decide))

def unheardThrice : Feed := afterSilence unheardTwice (daysLater 30 (by decide))

def unheardFourTimes : Feed := afterSilence unheardThrice (daysLater 40 (by decide))

/-- It is dead on the forty-fifth day. -/
theorem unheard_dead : unheardFourTimes.status = .dead := by
  have hfirst : (unanswered (daysLater 10 (by decide))).Fails {} 864000000000 unheard
      unheardOnce :=
    ⟨fun _ ↦ by decide +kernel, by decide +kernel, ⟨.timeout, by decide +kernel⟩, rfl⟩
  have hsecond : (unanswered (daysLater 20 (by decide))).Fails {} 864000000000 unheardOnce
      unheardTwice :=
    ⟨fun _ ↦ by decide +kernel, by decide +kernel, ⟨.timeout, by decide +kernel⟩, rfl⟩
  have hthird : (unanswered (daysLater 30 (by decide))).Fails {} 864000000000 unheardTwice
      unheardThrice :=
    ⟨fun _ ↦ by decide +kernel, by decide +kernel, ⟨.timeout, by decide +kernel⟩, rfl⟩
  have hfourth : (unanswered (daysLater 40 (by decide))).Fails {} 864000000000 unheardThrice
      unheardFourTimes :=
    ⟨fun _ ↦ by decide +kernel, by decide +kernel, ⟨.timeout, by decide +kernel⟩, rfl⟩
  have hserved : (daysLater 45 (by decide)).micros ≤
      unheardFourTimes.nextFetchAt.micros + (864000000000 : Nat) := by decide +kernel
  exact dead_in_time Settings.valid_default (by decide) (by decide)
    ((((Run.single hfirst).snoc hsecond).snoc hthird).snoc hfourth) (fun _ ↦ hserved)
    (by decide +kernel) (by decide +kernel)

end FeedgateFetcher
