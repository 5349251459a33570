import FeedgateFetcher.Clocks
import FeedgateFetcher.Delays

/-!
# How often a feed is claimed

As long as the workers keep their leases, the claims of one feed keep a distance: that of the
lease, if the worker is lost, or of the shortest delay, if the fetch is committed.  So the number
of claims, and with it that of the fetches an origin sees, is bounded by the time that has passed.
-/

namespace FeedgateFetcher

open Python Logic

/-- The distance of two claims of one feed, in microseconds. -/
def Settings.claimGap (cfg : Settings) : Int :=
  min (cfg.fetchClaimTtlSeconds * microsPerSecond) cfg.shortestDelay

/-- The action claims the feed. -/
def Action.takes (feedId : Int) : Action → Bool
  | .claim _ _ _ ids => ids.contains feedId
  | _ => false

namespace Cluster

/-- The last claim of the feed was at `a`, and the next one keeps its distance. -/
structure Spaced (cfg : Settings) (feedId : Int) (a : Datetime) (s : Cluster) : Prop where
  clock : a ≤ s.clock
  row : ∀ f ∈ s.table, f.id = feedId → f.lastAttemptAt = some a ∧
    (f.status ≠ .dead → a.micros + cfg.claimGap ≤ f.nextFetchAt.micros)
  held : ∀ c ∈ s.held, c.feedId = feedId → c.now = a ∧
    ∀ row, c.loaded = some row → row ∈ s.table ∧ row.id = feedId

variable {cfg : Settings} {s s' : Cluster} {a : Action} {feedId : Int} {now : Datetime}

/-- The claim of a feed puts its next one off by the lease. -/
theorem spaced_of_claim {worker : Nat} {scan : List Feed} {ids : List Int}
    (hex : (s.pool cfg).Exclusive (leaseEnd cfg))
    (h : s.TimelyStep cfg (.claim now worker scan ids) s') (hid : feedId ∈ ids) :
    s'.Spaced cfg feedId now := by
  obtain ⟨htimely, hstep⟩ := h
  cases hstep with
  | claim hclock hscan htable hheld hnow =>
      obtain ⟨-, -, hdue⟩ := claimDueFeeds_spec s.keys hscan htable
      refine ⟨hnow.ge, ?_, ?_⟩
      · rintro f hf rfl
        obtain ⟨g, -, -, ⟨hnot, -⟩ | ⟨-, leaseUntil, hlease, rfl⟩⟩ := mem_claimDueFeeds htable hf
        · exact absurd hid hnot
        · refine ⟨rfl, fun _ ↦ ?_⟩
          show now.micros + cfg.claimGap ≤ leaseUntil.micros
          rw [hlease]
          exact Int.add_le_add_left (min_le_left _ _) _
      · intro c hc hcid
        rw [hheld] at hc
        rcases List.mem_append.mp hc with hc | hc
        · refine absurd ?_ (hex.notMem_held htimely.pool hclock (hdue _ hid))
          exact List.mem_map.mpr ⟨c.grant, List.mem_map_of_mem hc, hcid⟩
        · obtain ⟨id, -, rfl⟩ := List.mem_map.mp hc
          refine ⟨rfl, fun row hrow ↦ ?_⟩
          cases hrow

/-- A feed is not due before it has kept its distance. -/
theorem Spaced.le_of_due (hprobe : cfg.fetchClaimTtlSeconds * microsPerSecond ≤
      cfg.deadProbeIntervalDays * microsPerDay) {last : Datetime} (h : s.Spaced cfg feedId last)
    {f : Feed} (hf : f ∈ s.table) (hid : f.id = feedId)
    (hdue : f.dueAt cfg.deadProbeIntervalDays now.micros) :
    last.micros + cfg.claimGap ≤ now.micros := by
  obtain ⟨hattempt, hnext⟩ := h.row f hf hid
  rcases hdue with ⟨halive, hle⟩ | ⟨-, hnone | ⟨t, ht, hlt⟩⟩
  · exact (hnext halive).trans hle
  · rw [hattempt] at hnone
    cases hnone
  · rw [hattempt] at ht
    cases ht
    have hgap : cfg.claimGap ≤ cfg.fetchClaimTtlSeconds * microsPerSecond := min_le_left _ _
    omega

/-- Steps that do not claim the feed leave the distance alone. -/
theorem Spaced.step (hcfg : cfg.Valid) (hex : (s.pool cfg).Exclusive (leaseEnd cfg))
    {last : Datetime} (h : s.Spaced cfg feedId last) (hs : s.Step cfg a s')
    (htakes : a.takes feedId = false) : s'.Spaced cfg feedId last := by
  cases hs with
  | @claim now worker scan ids _ hclock hscan htable hheld hnow =>
      have hnot : feedId ∉ ids := fun hid ↦ by
        rw [Action.takes, List.contains_iff_mem.mpr hid] at htakes
        cases htakes
      have hrows : ∀ f : Feed, f.id = feedId → (f ∈ s'.table ↔ f ∈ s.table) := fun f hf ↦
        mem_claimDueFeeds_of_notMem (hf ▸ hnot) htable
      refine ⟨h.clock.trans (hclock.trans hnow.ge), ?_, ?_⟩
      · intro f hf hid
        exact h.row f ((hrows f hid).mp hf) hid
      · intro c hc hid
        rw [hheld] at hc
        rcases List.mem_append.mp hc with hc | hc
        · obtain ⟨hlast, hloaded⟩ := h.held c hc hid
          refine ⟨hlast, fun row hrow ↦ ?_⟩
          obtain ⟨hmem, hrowid⟩ := hloaded row hrow
          exact ⟨(hrows row hrowid).mpr hmem, hrowid⟩
        · obtain ⟨id, hids, rfl⟩ := List.mem_map.mp hc
          exact absurd (hid ▸ hids) hnot
  | @load now c row _ hclock hc hrow hrowid htable hheld hnow =>
      refine ⟨h.clock.trans (hclock.trans hnow.ge), ?_, ?_⟩
      · rw [htable]
        exact h.row
      · intro d hd hid
        rw [hheld] at hd
        rw [htable]
        obtain ⟨d', hd', rfl⟩ := List.mem_map.mp hd
        by_cases heq : d' = c
        · rw [if_pos heq] at hid ⊢
          refine ⟨(h.held c hc hid).1, fun row' hrow' ↦ ?_⟩
          cases hrow'
          exact ⟨hrow, hrowid.trans hid⟩
        · rw [if_neg heq] at hid ⊢
          exact h.held d' hd' hid
  | @finish now c row up session domains _ hclock hc hrow htable hheld hnow =>
      refine ⟨h.clock.trans (hclock.trans hnow.ge), ?_, ?_⟩
      · intro g hg hid
        rw [htable] at hg
        rcases mem_settle hg with hg | ⟨hdurable, f, hf, hfid, rfl⟩
        · exact h.row g hg hid
        · have hcid : c.feedId = feedId := hfid.symm.trans hid
          obtain ⟨hlast, hloaded⟩ := h.held c hc hcid
          obtain ⟨hmem, hrowid⟩ := hloaded row hrow
          obtain rfl : f = row := s.eq_of_id hf hmem (hid.trans hrowid.symm)
          obtain ⟨-, -, hattempt, -⟩ := processing_clocks hdurable
          have hdelay := processing_delay hcfg hdurable
          refine ⟨?_, fun _ ↦ ?_⟩
          · show (if _ = _ then _ else _) = _
            rw [ite_eq_right_iff.mpr fun heq ↦ heq.symm, ← hlast]
            exact hattempt
          · show _ ≤ (if _ = _ then _ else _ : Datetime).micros
            rw [ite_eq_right_iff.mpr fun heq ↦ heq.symm, ← hlast]
            exact (Int.add_le_add_left (min_le_right _ _) _).trans hdelay
      · intro d hd hid
        rw [hheld] at hd
        have hne := feedId_ne_of_mem_erase hex hc hd
        obtain ⟨hlast, hloaded⟩ := h.held d (List.mem_of_mem_erase hd) hid
        refine ⟨hlast, fun row' hrow' ↦ ?_⟩
        obtain ⟨hmem', hrowid⟩ := hloaded row' hrow'
        rw [htable]
        exact ⟨(settle_id (by rw [hrowid, ← hid]; exact hne)).mpr hmem', hrowid⟩
  | @abandon now c _ hclock htable hheld hnow =>
      refine ⟨h.clock.trans (hclock.trans hnow.ge), htable ▸ h.row, fun d hd ↦ ?_⟩
      rw [hheld] at hd
      rw [htable]
      exact h.held d (List.mem_of_mem_erase hd)
  | @crash now worker _ hclock htable hheld hnow =>
      refine ⟨h.clock.trans (hclock.trans hnow.ge), htable ▸ h.row, fun d hd ↦ ?_⟩
      rw [hheld] at hd
      rw [htable]
      exact h.held d (List.mem_of_mem_filter hd)

theorem claimGap_nonneg (hcfg : cfg.Valid) (httl : 0 ≤ cfg.fetchClaimTtlSeconds) :
    0 ≤ cfg.claimGap := by
  have hr : 0 ≤ 1 - cfg.backoffJitterRatio := sub_nonneg.mpr hcfg.jitter_lt_one.le
  have hbackoff : (0 : ℚ) ≤ (min cfg.fetchIntervalSeconds cfg.brokenMaxBackoffSeconds : Int) := by
    exact_mod_cast le_min hcfg.interval_pos.le hcfg.backoff_pos.le
  refine le_min (Int.mul_nonneg httl (by decide)) (le_min ?_ (Int.floor_nonneg.mpr ?_))
  · exact Int.mul_nonneg (le_min hcfg.interval_pos.le hcfg.frequency_pos.le) (by decide)
  · exact mul_nonneg (mul_nonneg hr hbackoff) (by norm_num)

/-- What is known of a feed that has been claimed `n` times since `begun`. -/
structure Metered (cfg : Settings) (feedId : Int) (begun : Datetime) (n : ℕ) (s : Cluster) :
    Prop where
  exclusive : (s.pool cfg).Exclusive (leaseEnd cfg)
  clock : begun ≤ s.clock
  spaced : n = 0 ∨ ∃ last : Datetime, s.Spaced cfg feedId last ∧
    (n : Int) * cfg.claimGap ≤ last.micros - begun.micros + cfg.claimGap

theorem Metered.step (hcfg : cfg.Valid) (hprobe : cfg.fetchClaimTtlSeconds * microsPerSecond ≤
      cfg.deadProbeIntervalDays * microsPerDay) {begun : Datetime} {n : ℕ}
    (h : s.Metered cfg feedId begun n) (hs : s.TimelyStep cfg a s') :
    s'.Metered cfg feedId begun (n + if a.takes feedId then 1 else 0) := by
  have hex : (s'.pool cfg).Exclusive (leaseEnd cfg) :=
    h.exclusive.step ⟨hs.1.pool, hs.2.refines hprobe h.exclusive⟩
  refine ⟨hex, h.clock.trans hs.2.clock_le, ?_⟩
  by_cases htakes : a.takes feedId = true
  · rw [if_pos htakes]
    cases a with
    | claim now worker scan ids =>
        have hid : feedId ∈ ids := List.contains_iff_mem.mp htakes
        have hdue : ∃ f ∈ s.table, f.id = feedId ∧ f.dueAt cfg.deadProbeIntervalDays now.micros ∧
            s.clock ≤ now := by
          cases hs.2 with
          | claim hclock hscan htable _ _ =>
              obtain ⟨f, hf, hfid, hdue⟩ := (claimDueFeeds_spec s.keys hscan htable).2.2 _ hid
              exact ⟨f, hf, hfid, hdue, hclock⟩
        obtain ⟨f, hf, hfid, hdue, hclock⟩ := hdue
        refine .inr ⟨now, spaced_of_claim h.exclusive hs hid, ?_⟩
        rcases h.spaced with rfl | ⟨last, hlast, hn⟩
        · have hle : begun.micros ≤ now.micros := h.clock.trans hclock
          rw [Nat.zero_add, Nat.cast_one, Int.one_mul]
          omega
        · have hgap := hlast.le_of_due hprobe hf hfid hdue
          rw [Nat.cast_add, Nat.cast_one, Int.add_mul, Int.one_mul]
          omega
    | _ => cases htakes
  · rw [if_neg htakes, Nat.add_zero]
    rcases h.spaced with hn | ⟨last, hlast, hn⟩
    · exact .inl hn
    · exact .inr ⟨last, hlast.step hcfg h.exclusive hs.2 (Bool.eq_false_iff.mpr htakes), hn⟩

/-- A run that begins idle is metered by its claims. -/
theorem metered_run (hcfg : cfg.Valid) (hprobe : cfg.fetchClaimTtlSeconds * microsPerSecond ≤
      cfg.deadProbeIntervalDays * microsPerDay) {s₀ : Cluster} {as : List Action}
    (h₀ : s₀.held = []) (h : Run (TimelyStep cfg) s₀ as s) (feedId : Int) :
    s.Metered cfg feedId s₀.clock (as.countP (Action.takes feedId)) := by
  induction h with
  | nil => exact ⟨exclusive_of_idle cfg h₀, le_refl _, .inl rfl⟩
  | snoc _ hs ih =>
      rw [List.countP_append, List.countP_singleton]
      exact ih.step hcfg hprobe hs

/-- `n` claims take the time of `n - 1` gaps. -/
theorem Metered.le (hcfg : cfg.Valid) (httl : 0 ≤ cfg.fetchClaimTtlSeconds) {begun : Datetime}
    {n : ℕ} (h : s.Metered cfg feedId begun n) :
    (n : Int) * cfg.claimGap ≤ s.clock.micros - begun.micros + cfg.claimGap := by
  have hclock : begun.micros ≤ s.clock.micros := h.clock
  rcases h.spaced with rfl | ⟨last, hlast, hn⟩
  · have hgap := claimGap_nonneg hcfg httl
    rw [Nat.cast_zero, Int.zero_mul]
    omega
  · have hle : last.micros ≤ s.clock.micros := hlast.clock
    omega

/-- In every run whose workers keep their leases, a feed is claimed at most once in every gap: `n`
claims take the time of `n - 1` gaps. -/
theorem claims_keep_distance (hcfg : cfg.Valid) (httl : 0 ≤ cfg.fetchClaimTtlSeconds)
    (hprobe : cfg.fetchClaimTtlSeconds * microsPerSecond ≤
      cfg.deadProbeIntervalDays * microsPerDay)
    {s₀ : Cluster} {as : List Action} (h₀ : s₀.held = []) (h : Run (TimelyStep cfg) s₀ as s)
    (feedId : Int) :
    (as.countP (Action.takes feedId) : Int) * cfg.claimGap ≤
      s.clock.micros - s₀.clock.micros + cfg.claimGap :=
  (metered_run hcfg hprobe h₀ h feedId).le hcfg httl

/-- A feed whose worker crashes is claimed again ninety seconds later, which is twice the gap. -/
theorem reclaimed_keeps_distance : ({} : Settings).claimGap = 45 * microsPerSecond ∧
    2 * ({} : Settings).claimGap ≤ expiry.micros - Datetime.year2000.micros +
      ({} : Settings).claimGap := by
  refine ⟨by decide +kernel, ?_⟩
  have h₁ : TimelyStep {} unclaimed (.claim .year2000 1 [fresh 1] [1]) (claimed none) :=
    ⟨fun _ hc ↦ absurd hc List.not_mem_nil,
      .claim (le_refl _) (List.Subperm.refl _) (by decide +kernel) rfl rfl⟩
  have h₂ : TimelyStep {} (claimed none) (.crash .year2000 1)
      ⟨[leased (fresh 1)], by decide, [], .year2000⟩ :=
    ⟨by decide, .crash (le_refl _) rfl rfl rfl⟩
  have hclock : Datetime.year2000 ≤ expiry := by decide
  have hclaim : claimDueFeeds expiry 8 90 7 [leased (fresh 1)] [leased (fresh 1)] =
      .ok ([1], [reclaimed]) := by decide +kernel
  have h₃ : TimelyStep {} ⟨[leased (fresh 1)], by decide, [], .year2000⟩
      (.claim expiry 2 [leased (fresh 1)] [1])
      ⟨[reclaimed], by decide, [⟨2, 1, expiry, none⟩], expiry⟩ :=
    ⟨fun _ hc ↦ absurd hc List.not_mem_nil,
      .claim hclock (List.Subperm.refl _) hclaim rfl rfl⟩
  exact claims_keep_distance Settings.valid_default (by decide) (by decide) rfl
    (((Run.single h₁).snoc h₂).snoc h₃) 1

end Cluster

end FeedgateFetcher
