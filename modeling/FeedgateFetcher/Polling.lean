import FeedgateFetcher.Fetcher.Aftermath

/-!
# How often a feed is polled

The delay that a successful fetch schedules when its server gives no hint, as a
function of the entries of the last week.  It falls with their number as long as
there are any; a feed without recent entries gets the base interval instead, which
is usually the shortest of all.
-/

namespace FeedgateFetcher

open Python Logic

/-! ## The interval -/

/-- The configurations for which the frequency of a feed makes sense. -/
structure Settings.Polls (cfg : Settings) : Prop where
  interval_pos : 0 < cfg.fetchIntervalSeconds
  frequency_pos : 0 < cfg.entryFrequencyMinIntervalSeconds
  frequency_le : cfg.entryFrequencyMinIntervalSeconds ≤ cfg.entryFrequencyMaxIntervalSeconds
  factor_pos : 1 ≤ cfg.entryFrequencyFactor

/-- The interval for a number of recent entries, when the factor is positive. -/
def pollingInterval (cfg : Settings) (recent : Nat) : ℚ :=
  if 0 < recent then frequencyInterval cfg recent else cfg.fetchIntervalSeconds

/-- The interval of a feed with this many recent entries is not longer than the base interval,
to half a microsecond. -/
def WithinBase (cfg : Settings) (recent : Nat) : Prop :=
  cfg.entryFrequencyMinIntervalSeconds ≤ cfg.fetchIntervalSeconds ∧
    (cfg.entryFrequencyMaxIntervalSeconds ≤ cfg.fetchIntervalSeconds ∨
      7 * 24 * 3600 * 2000000 ≤
        (2000000 * cfg.fetchIntervalSeconds + 1) * (recent * cfg.entryFrequencyFactor))

section

variable {cfg : Settings} {recent recent' : Nat}

theorem regularInterval_eq (hcfg : cfg.Polls) (recent : Nat) :
    regularInterval cfg recent = .ok (pollingInterval cfg recent) := by
  unfold regularInterval pollingInterval
  by_cases h : 0 < recent
  · have hne : (recent : Int) * cfg.entryFrequencyFactor ≠ 0 := by
      have := hcfg.factor_pos
      positivity
    rw [if_pos h, if_neg hne, if_pos h]
  · rw [if_neg h, if_neg h]

theorem pollingInterval_nonneg (hcfg : cfg.Polls) (recent : Nat) :
    0 ≤ pollingInterval cfg recent := by
  unfold pollingInterval
  split
  · refine le_trans ?_ (le_max_left _ _)
    exact_mod_cast hcfg.frequency_pos.le
  · exact_mod_cast hcfg.interval_pos.le

/-- More entries make for a shorter interval. -/
theorem frequencyInterval_antitone (hcfg : cfg.Polls) (hpos : 0 < recent)
    (h : recent ≤ recent') : frequencyInterval cfg recent' ≤ frequencyInterval cfg recent := by
  have hfactor : (0 : Int) < cfg.entryFrequencyFactor := hcfg.factor_pos
  have hcast : ((recent * cfg.entryFrequencyFactor : Int) : ℚ) ≤
      (recent' * cfg.entryFrequencyFactor : Int) := by
    have : (recent : Int) * cfg.entryFrequencyFactor ≤ recent' * cfg.entryFrequencyFactor := by
      gcongr
    exact_mod_cast this
  have hpos' : (0 : ℚ) < (recent * cfg.entryFrequencyFactor : Int) := by
    have : 0 < (recent : Int) * cfg.entryFrequencyFactor := by positivity
    exact_mod_cast this
  unfold frequencyInterval
  gcongr

/-- The condition on the settings, in terms of the interval. -/
theorem withinBase_iff (hcfg : cfg.Polls) (hpos : 0 < recent) :
    WithinBase cfg recent ↔
      frequencyInterval cfg recent * 1000000 ≤ cfg.fetchIntervalSeconds * 1000000 + 1 / 2 := by
  have hfactor : (0 : Int) < cfg.entryFrequencyFactor := hcfg.factor_pos
  have hn : 0 < (recent : Int) * cfg.entryFrequencyFactor := by positivity
  have hn' : (0 : ℚ) < (recent * cfg.entryFrequencyFactor : Int) := by exact_mod_cast hn
  have hwhole : ∀ a : Int, a ≤ cfg.fetchIntervalSeconds ↔
      (a : ℚ) ≤ cfg.fetchIntervalSeconds + 1 / 2000000 := by
    intro a
    constructor
    · intro h
      have h' : (a : ℚ) ≤ cfg.fetchIntervalSeconds := by exact_mod_cast h
      linarith
    · intro h
      have h' : (a : ℚ) < (cfg.fetchIntervalSeconds + 1 : Int) := by
        push_cast
        linarith
      exact Int.lt_add_one_iff.mp (by exact_mod_cast h')
  have hscale : frequencyInterval cfg recent * 1000000 ≤
      cfg.fetchIntervalSeconds * 1000000 + 1 / 2 ↔
        frequencyInterval cfg recent ≤ cfg.fetchIntervalSeconds + 1 / 2000000 := by
    constructor <;> intro h <;> linarith
  have hquotient : (7 * 24 * 3600 : ℚ) / (recent * cfg.entryFrequencyFactor : Int) ≤
      cfg.fetchIntervalSeconds + 1 / 2000000 ↔
        7 * 24 * 3600 * 2000000 ≤
          (2000000 * cfg.fetchIntervalSeconds + 1) * (recent * cfg.entryFrequencyFactor) := by
    rw [div_le_iff₀ hn', ← Int.cast_le (R := ℚ)]
    push_cast
    constructor <;> intro h <;> linarith
  rw [hscale, frequencyInterval, max_le_iff, min_le_iff, ← hwhole, ← hwhole, hquotient, WithinBase,
    or_comm (a := cfg.entryFrequencyMaxIntervalSeconds ≤ _)]

/-- The interval in whole microseconds, as it is scheduled. -/
def pollingDelay (cfg : Settings) (recent : Nat) : Int :=
  Timedelta.roundHalfEven (pollingInterval cfg recent * 1000000)

/-- The delay falls with the number of recent entries, apart from the step from none to some. -/
theorem pollingDelay_le_iff (hcfg : cfg.Polls) (h : recent ≤ recent') :
    pollingDelay cfg recent' ≤ pollingDelay cfg recent ↔
      0 < recent ∨ recent' = 0 ∨ WithinBase cfg recent' := by
  unfold pollingDelay pollingInterval
  by_cases hr : 0 < recent
  · -- both feeds have recent entries
    refine iff_of_true (Timedelta.roundHalfEven_mono ?_) (.inl hr)
    rw [if_pos hr, if_pos (hr.trans_le h)]
    have := frequencyInterval_antitone hcfg hr h
    linarith
  · rw [if_neg hr]
    by_cases hr' : 0 < recent'
    · -- the first feed falls back to the base interval
      have hbase : Timedelta.roundHalfEven ((cfg.fetchIntervalSeconds : ℚ) * 1000000) =
          cfg.fetchIntervalSeconds * 1000000 := by
        rw [← Timedelta.roundHalfEven_intCast (cfg.fetchIntervalSeconds * 1000000)]
        push_cast
        rfl
      have heven : cfg.fetchIntervalSeconds * 1000000 % 2 = 0 := by omega
      rw [if_pos hr', hbase, Timedelta.roundHalfEven_le_iff_of_even heven]
      push_cast
      rw [← withinBase_iff hcfg hr']
      exact ⟨fun hw ↦ .inr (.inr hw), fun hc ↦
        (hc.resolve_left hr).resolve_left (Nat.pos_iff_ne_zero.mp hr')⟩
    · rw [if_neg hr']
      exact iff_of_true le_rfl (.inr (.inl (by omega)))

end

/-! ## The call -/

/-- A call that stores a document, or learns that the stored one is current. -/
def Fetched (run : FetchState × FetchState) : Prop :=
  run.2.observed = run.1.observed ++ [.success] ∨ run.2.observed = run.1.observed ++ [.notModified]

section

variable {up : Upstream} {cfg : Settings} {now : Datetime} {weekly : Nat} {s s' t : FetchState}

/-- What the branch for 304 has chosen when it returns. -/
theorem handleNotModified_chosen {headers : Headers} {flow : Flow}
    (h : handleNotModified up cfg now weekly headers s = (.ok flow, t)) :
    computeNextFetchAt cfg t.feed now t.serverHint weekly up.draw = .ok t.feed.nextFetchAt := by
  cases hh : parseCacheHint headers now with
  | error e =>
      rw [handleNotModified_of_hint_error hh] at h
      cases h
  | ok hint =>
      rw [handleNotModified_of_hint hh] at h
      cases hc : computeNextFetchAt cfg (s.mark cfg (.notModified now)).feed now hint weekly
          up.draw with
      | error e =>
          rw [hc] at h
          cases h
      | ok next =>
          rw [hc] at h
          cases h
          exact hc

/-- What the end of the call has chosen when it returns. -/
theorem schedule_chosen (h : schedule up cfg now weekly s = (.ok ⟨⟩, t)) :
    computeNextFetchAt cfg t.feed now t.serverHint weekly up.draw = .ok t.feed.nextFetchAt := by
  rw [schedule_eq] at h
  cases hc : computeNextFetchAt cfg s.feed now s.serverHint weekly up.draw with
  | error e =>
      rw [hc] at h
      cases h
  | ok next =>
      rw [hc] at h
      cases h
      exact hc

/-- The tail for a document does not return from the call. -/
theorem storeDocument_flow {headers : Headers} {body : Bytes} {flow : Flow}
    (h : storeDocument up cfg now headers body s = (.ok flow, t)) : flow = .completed := by
  cases hct : isNotAFeedContentType (headers.get "content-type".toList) with
  | true =>
      rw [storeDocument_of_html hct] at h
      cases h
  | false =>
      cases hp : parseFeed up.feedparser body with
      | error exc =>
          rw [storeDocument_of_parse_error hct hp] at h
          cases h
      | ok parsed =>
          rcases hst : storeEntries up cfg now parsed.entries s with ⟨exc | _, s₁⟩
          · rw [storeDocument_of_store_error hct hp hst] at h
            cases h
          · rw [storeDocument_of_stored hct hp hst] at h
            cases hh : parseCacheHint headers now <;> rw [hh] at h <;> cases h
            rfl

/-- Unless it reports a 429, a `try` block that returns from the call is in the branch for 304. -/
theorem attempt_chosen (h : attempt up cfg now weekly s = (.ok .returned, t))
    (hobs : t.observed ≠ s.observed ++ [.rateLimited]) :
    computeNextFetchAt cfg t.feed now t.serverHint weekly up.draw = .ok t.feed.nextFetchAt := by
  have hleaves := attempt_leaves h
  rw [attempt_eq] at h
  rcases hc : contact up cfg s with ⟨exc | x, s'⟩
  · rw [Act.bind_of_error hc] at h
    cases h
  · rw [Act.bind_of_ok hc] at h
    cases x with
    | notModified headers => exact handleNotModified_chosen h
    | rateLimited headers =>
        refine absurd (hleaves.reported _ rfl).2 ?_
        rw [attemptOutcome_of_ok hc, respondOutcome_of_ok h]
        exact hobs
    | document headers body => cases storeDocument_flow h

/-- A fetch deals with an answer other than a 429. -/
theorem Fetched.answered {o : Outcome} (hf : Fetched (s, t))
    (hobs : t.observed = s.observed ++ [o.result]) :
    ∃ a : Answered, o = .answered a ∧ a ≠ .rateLimited := by
  have hresult : o.result = .success ∨ o.result = .notModified := by
    refine hf.imp (fun h ↦ ?_) fun h ↦ ?_ <;>
      exact List.singleton_injective (List.append_cancel_left (hobs.symm.trans h))
  cases o with
  | answered a =>
      refine ⟨a, rfl, ?_⟩
      rintro rfl
      rcases hresult with h | h <;> cases h
  | failed code => rcases hresult with h | h <;> cases h
  | spoiled a => rcases hresult with h | h <;> cases h

/-- Such an answer leaves no feed broken. -/
theorem Answered.mark_ne_broken {a : Answered} (ha : a ≠ .rateLimited) (now : Datetime) (T D : Int)
    (l : Lifecycle) : ((a.mark now).apply T D l).status ≠ .broken := by
  cases a with
  | success =>
      rw [mark, Mark.apply_success]
      exact nofun
  | notModified => exact apply_notModified_ne_broken now T D l
  | rateLimited => exact absurd rfl ha

/-- A fetch leaves the feed unbroken, and scheduled by the settings, the hint and the entries of
the week before. -/
theorem fetchOne_chosen (h : fetchOne up cfg now s = (.ok ⟨⟩, t)) (hf : Fetched (s, t)) :
    t.feed.status ≠ .broken ∧ ∃ weekly s₁, prepare up now s = (.ok weekly, s₁) ∧
      computeNextFetchAt cfg t.feed now t.serverHint weekly up.draw = .ok t.feed.nextFetchAt := by
  obtain ⟨o, -, hobs, hhistory⟩ := fetchOne_outcome h
  obtain ⟨a, rfl, ha⟩ := hf.answered hobs
  constructor
  · have hstatus : t.feed.status = ((a.mark now).apply cfg.brokenThreshold cfg.deadDurationDays
        s.feed.lifecycle).status := congrArg (fun p : History ↦ p.1.status) hhistory
    rw [hstatus]
    exact Answered.mark_ne_broken ha now _ _ _
  · have hrun := fetchOne_run up cfg now s
    rw [h] at hrun
    generalize hr : (Except.ok ⟨⟩ : Except Exc PUnit) = r at hrun
    cases hrun with
    | unprepared _ => cases hr
    | lost _ _ _ => cases hr
    | returned hp ha' =>
        refine ⟨_, _, hp, attempt_chosen ha' fun hrate ↦ ?_⟩
        rw [hrate, (prepare_history hp).2] at hobs
        cases a with
        | rateLimited => exact ha rfl
        | success => cases List.singleton_injective (List.append_cancel_left hobs)
        | notModified => cases List.singleton_injective (List.append_cancel_left hobs)
    | completed hp _ hs => exact ⟨_, _, hp, schedule_chosen (hr ▸ hs)⟩
    | failed hp _ _ hs => exact ⟨_, _, hp, schedule_chosen (hr ▸ hs)⟩

/-- The entries of the feed from the seven days before the call. -/
def recentEntries (now : Datetime) (s : FetchState) : Nat :=
  s.session.entries.countP fun e ↦
    decide (e.feedId = s.feed.id ∧ now.micros - week.micros ≤ e.fetchedAt.micros)

/-- The weekly count is the number of these entries. -/
theorem weekly_eq_recentEntries (h : prepare up now s = (.ok weekly, s')) :
    weekly = recentEntries now s := by
  rw [prepare_eq] at h
  cases hc : now.subDelta week with
  | error e =>
      rw [hc] at h
      cases h
  | ok cutoff =>
      rw [hc] at h
      obtain ⟨-, -, hweekly, -⟩ := Session.execute_ok (onSession_eq h).1
      rw [hweekly]
      refine List.countP_congr fun e _ ↦ ?_
      rw [decide_eq_true_iff, decide_eq_true_iff, Datetime.le_def,
        Datetime.subDelta_eq_ok_iff.mp hc]

/-- The time from the call to the fetch that it schedules. -/
def scheduledDelay (now : Datetime) (t : FetchState) : Timedelta := t.feed.nextFetchAt.sub now

/-- A feed with stored entries that is not broken is fetched, and its server gives no hint. -/
structure PlainFetch (up : Upstream) (cfg : Settings) (now : Datetime) (s : FetchState) : Prop where
  status : s.feed.status ≠ .broken
  stored : s.session.hasEntries s.feed.id = true
  returned : (fetchOne up cfg now s).1 = .ok ⟨⟩
  fetched : Fetched (s, (fetchOne up cfg now s).2)
  unhinted : (fetchOne up cfg now s).2.serverHint = none

theorem PlainFetch.scheduledDelay_eq (hcfg : cfg.Polls) (h : PlainFetch up cfg now s) :
    (scheduledDelay now (fetchOne up cfg now s).2).micros =
      pollingDelay cfg (recentEntries now s) := by
  obtain ⟨hstatus, weekly, s₁, hp, hc⟩ :=
    fetchOne_chosen (t := (fetchOne up cfg now s).2) (Prod.ext h.returned rfl) h.fetched
  have hmax : max (pollingInterval cfg weekly) ((Option.getD none 0 : Int) : ℚ) =
      pollingInterval cfg weekly :=
    max_eq_left (by exact_mod_cast pollingInterval_nonneg hcfg weekly)
  unfold computeNextFetchAt at hc
  rw [if_pos hstatus, h.unhinted, regularInterval_eq hcfg] at hc
  change addSeconds now (max _ _) = _ at hc
  rw [hmax] at hc
  rw [scheduledDelay, Datetime.sub_micros, addSeconds_eq_ok_iff.mp hc, weekly_eq_recentEntries hp]
  exact add_sub_cancel_left _ _

end

/-- Of two fetched feeds the one with fewer recent entries waits at least as long, unless it has
none at all: then the other must have none either, or wait no longer than the base interval. -/
theorem quiet_feeds_wait_iff (cfg : Settings) (hcfg : cfg.Polls) (up up' : Upstream)
    (now now' : Datetime) (s s' : FetchState) (h : PlainFetch up cfg now s)
    (h' : PlainFetch up' cfg now' s') (hle : recentEntries now s ≤ recentEntries now' s') :
    (scheduledDelay now' (fetchOne up' cfg now' s').2).micros ≤
        (scheduledDelay now (fetchOne up cfg now s).2).micros ↔
      0 < recentEntries now s ∨ recentEntries now' s' = 0 ∨
        WithinBase cfg (recentEntries now' s') := by
  rw [h.scheduledDelay_eq hcfg, h'.scheduledDelay_eq hcfg]
  exact pollingDelay_le_iff hcfg hle

theorem Settings.polls_default : ({} : Settings).Polls where
  interval_pos := by decide
  frequency_pos := by decide
  frequency_le := by decide
  factor_pos := by decide

/-- An origin with a feed that is empty at the moment. -/
def emptyFeed : Upstream :=
  { Upstream.answering ⟨200, [], [], none⟩ with feedparser := fun _ ↦ some {} }

/-- A feed with one stored entry, which was fetched then. -/
def withEntry (fetchedAt : Datetime) : FetchState :=
  { FetchState.firstFetch with
    session := .start [⟨1, 1, [], [], none, none, none, none, fetchedAt, fetchedAt⟩] 2 }

/-- Eight days before the year 2000. -/
def lastWeek : Datetime := ⟨63081590400000000, by decide, by decide⟩

theorem emptyFeed_fetched (fetchedAt : Datetime)
    (h : fetchedAt = lastWeek ∨ fetchedAt = .year2000) :
    PlainFetch emptyFeed {} .year2000 (withEntry fetchedAt) := by
  rcases h with rfl | rfl
  all_goals
    constructor
    · decide +kernel
    · decide +kernel
    · decide +kernel
    · exact .inl (by decide +kernel)
    · decide +kernel

/-- With the default settings the feed without recent entries is fetched again after a minute,
the one with a recent entry after a day. -/
theorem silentFeed_polled_more :
    PlainFetch emptyFeed {} .year2000 (withEntry lastWeek) ∧
    PlainFetch emptyFeed {} .year2000 (withEntry .year2000) ∧
    recentEntries .year2000 (withEntry lastWeek) = 0 ∧
    recentEntries .year2000 (withEntry .year2000) = 1 ∧
    (scheduledDelay .year2000 (fetchOne emptyFeed {} .year2000 (withEntry lastWeek)).2).micros =
      60 * microsPerSecond ∧
    (scheduledDelay .year2000 (fetchOne emptyFeed {} .year2000 (withEntry .year2000)).2).micros =
      86400 * microsPerSecond ∧
    ¬(scheduledDelay .year2000 (fetchOne emptyFeed {} .year2000 (withEntry .year2000)).2).micros ≤
      (scheduledDelay .year2000 (fetchOne emptyFeed {} .year2000
        (withEntry lastWeek)).2).micros := by
  refine ⟨emptyFeed_fetched _ (.inl rfl), emptyFeed_fetched _ (.inr rfl), ?_, ?_, ?_, ?_, ?_⟩ <;>
    decide +kernel

/-- A feed does not wait longer than itself. -/
theorem busyFeed_waits :
    (scheduledDelay .year2000 (fetchOne emptyFeed {} .year2000 (withEntry .year2000)).2).micros ≤
      (scheduledDelay .year2000 (fetchOne emptyFeed {} .year2000 (withEntry .year2000)).2).micros :=
  (quiet_feeds_wait_iff {} Settings.polls_default emptyFeed emptyFeed .year2000 .year2000 _ _
    (emptyFeed_fetched _ (.inr rfl)) (emptyFeed_fetched _ (.inr rfl)) le_rfl).mpr
      (.inl (by decide +kernel))

end FeedgateFetcher
