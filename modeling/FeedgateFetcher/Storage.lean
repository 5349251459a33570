import FeedgateFetcher.Churn

/-!
# How much is stored

The retention rule bounds the `entries` table: after a sweep that has found less than a whole batch
of victims in its snapshot, each feed has its first entries and what its fetches have stored in the
window, and besides only what fetches have added since the snapshot.  What other transactions delete
while the sweep is running does not matter.
-/

namespace FeedgateFetcher

open Python Logic Table

/-! ## One batch -/

/-- The entry is one of these feeds, and has been fetched since then. -/
def Entry.fetchedSince (feeds : Int → Bool) (since : Datetime) (e : Entry) : Bool :=
  feeds e.feedId && decide (since ≤ e.fetchedAt)

/-- The entry is one of these feeds, and none of those with these ids. -/
def Entry.spared (feeds : Int → Bool) (ids : List Int) (e : Entry) : Bool :=
  feeds e.feedId && decide (e.id ∉ ids)

theorem Entry.spared_nil (feeds : Int → Bool) :
    Entry.spared feeds [] = fun e ↦ feeds e.feedId := by
  funext e
  simp [Entry.spared]

/-- Entries of these feeds that have been fetched since then, singled out by what no update
changes. -/
structure Singles (p : Entry → Bool) (feeds : Int → Bool) (since : Datetime) : Prop where
  same : ∀ e d : Entry, e.Continues d → p d = p e
  fetched : ∀ e, p e = true → Entry.fetchedSince feeds since e = true

theorem singles_fetchedSince (feeds : Int → Bool) (since : Datetime) :
    Singles (Entry.fetchedSince feeds since) feeds since where
  same e d h := by
    have hfeed : d.feedId = e.feedId := congrArg Prod.fst h.key
    rw [Entry.fetchedSince, hfeed, h.fetchedAt]
    rfl
  fetched _ h := h

theorem singles_spared (feeds : Int → Bool) (ids : List Int) :
    Singles (Entry.spared feeds ids) feeds .earliest where
  same e d h := by
    have hfeed : d.feedId = e.feedId := congrArg Prod.fst h.key
    rw [Entry.spared, hfeed, h.id]
    rfl
  fetched e h := by
    have hle : Datetime.earliest ≤ e.fetchedAt := e.fetchedAt.nonneg
    rw [Entry.fetchedSince, decide_eq_true hle, (Bool.and_eq_true_iff.mp h).1]
    rfl

section

variable {p : Entry → Bool} {feeds : Int → Bool} {since : Datetime}

/-- A batch adds its length at most. -/
theorem countP_upsertAll_le (hp : Singles p feeds since) (feedId : Int) (now dbNow : Datetime)
    (ps : List ParsedEntry) (s : Session) :
    (Session.upsertAll feedId now dbNow ps s).entries.countP p ≤ s.entries.countP p +
      if feeds feedId && decide (since ≤ now) then ps.length else 0 := by
  induction ps generalizing s with
  | nil => exact Nat.le_add_right _ _
  | cons q ps ih =>
      have hone : (upsertEntry feedId now dbNow q s).entries.countP p ≤ s.entries.countP p +
          if feeds feedId && decide (since ≤ now) then 1 else 0 := by
        by_cases h : s.Has feedId q
        · rw [Session.upsertEntry_of_has h, List.countP_map]
          refine le_trans (le_of_eq ?_) (Nat.le_add_right _ _)
          exact List.countP_congr fun e _ ↦ by
            rw [Function.comp_apply, hp.same e _ (Entry.continues_receive feedId dbNow q e)]
        · rw [Session.upsertEntry_of_not_has h, List.countP_append, List.countP_singleton]
          refine Nat.add_le_add_left ?_ _
          split
          · rename_i hfresh
            rw [if_pos (show (feeds feedId && decide (since ≤ now)) = true from
              hp.fetched _ hfresh)]
          · exact Nat.zero_le _
      have hrest := ih (upsertEntry feedId now dbNow q s)
      rw [Session.upsertAll_cons, List.length_cons]
      split at hone
      · rename_i hcounts
        rw [if_pos hcounts] at hrest ⊢
        omega
      · rename_i hcounts
        rw [if_neg hcounts] at hrest ⊢
        omega

/-- A fetch stores `fetch_max_entries_per_fetch` entries at most. -/
theorem length_processedBatch_le {cfg : Settings} (hcap : 0 ≤ cfg.fetchMaxEntriesPerFetch)
    (up : Upstream) (now : Datetime) (s : FetchState) :
    (processedBatch up cfg now s).length ≤ cfg.fetchMaxEntriesPerFetch.toNat := by
  rcases processedBatch_cases up cfg now s with hnone | ⟨body, parsed, hasEntries, -, hbatch⟩
  · rw [hnone]
    exact Nat.zero_le _
  · have hper : cappedLength cfg.fetchMaxEntriesPerFetch parsed.entries.length ≤
        cfg.fetchMaxEntriesPerFetch.toNat := by
      rw [cappedLength_of_nonneg hcap]
      exact Nat.min_le_left _ _
    rw [hbatch, capEntries_eq_take]
    refine (List.length_take_le _ _).trans ?_
    cases hasEntries with
    | true => exact hper
    | false => exact (cappedLength_le _ _).trans hper

end

/-! ## One sweep -/

/-- A sweep that finds less than a whole batch leaves what the rule keeps. -/
theorem sweep_short {cutoff : Datetime} {minPerFeed batchSize : Int} {scan table : List Entry}
    (h : Keyed Entry.id table) (hN : 0 ≤ minPerFeed)
    (hscan : scan.Perm (victims cutoff minPerFeed table))
    (hshort : batchSize ≤ 0 ∨ (victims cutoff minPerFeed table).length < batchSize) :
    (sweep cutoff minPerFeed batchSize scan table).2 =
      (retentionRule cutoff minPerFeed).kept table := by
  by_cases hB : 0 < batchSize
  · have hthins := (sweep_batched h hN hB hscan).1
    refine Retention.thinning_run_ends (keyed_recency h) (Run.single hthins) ?_
    have hlt := hshort.resolve_left (not_le.mpr hB)
    rw [victims_eq_surplus h hN] at hlt
    rw [List.length_singleton, Nat.one_mul]
    omega
  · have hunbatched : sweep cutoff minPerFeed 0 scan table = _ := sweep_unbatched h hN
    rw [sweep, if_neg (lt_irrefl 0)] at hunbatched
    rw [sweep, if_neg hB]
    exact congrArg Prod.snd hunbatched

/-- What such a tick, if it succeeds, leaves of its snapshot. -/
theorem filter_sweptIds_short {retention : RetentionSettings} {now cutoff : Datetime} {fails : Bool}
    {scan snapshot : List Entry} {n : ℕ} (h : Keyed Entry.id snapshot)
    (hN : 0 ≤ retention.retentionMinPerFeed)
    (hcutoff : cutoff.micros = now.micros - retention.retentionDays * microsPerDay)
    (hscan : scan.Perm (victims cutoff retention.retentionMinPerFeed snapshot))
    (hn : (tickOnce retention now fails scan snapshot).1 = .ok n)
    (hshort : retention.retentionBatchSize ≤ 0 ∨
      (victims cutoff retention.retentionMinPerFeed snapshot).length <
        retention.retentionBatchSize) :
    (snapshot.filter fun e ↦ e.id ∉ sweptIds retention now fails scan snapshot) =
      (retentionRule cutoff retention.retentionMinPerFeed).kept snapshot := by
  rw [filter_sweptIds retention now fails scan h]
  rcases tickOnce_cases retention now fails scan snapshot with
    ⟨exc, hexc⟩ | ⟨cutoff', hcutoff', htick⟩
  · rw [hexc] at hn
    cases hn
  · obtain rfl : cutoff' = cutoff := Datetime.micros_injective (hcutoff'.trans hcutoff.symm)
    rw [htick]
    exact sweep_short h hN hscan hshort

/-! ## Runs -/

/-- A fetch of one of the feeds that was claimed since then is committed. -/
def ServiceAction.storesSince (feeds : Int → Bool) (since : Datetime) : ServiceAction → Bool
  | .commit _ c _ _ _ => feeds c.feedId && decide (since ≤ c.now)
  | _ => false

namespace Service

variable {cfg : Settings} {retention : RetentionSettings} {s s' t u : Service} {a : ServiceAction}
  {feeds : Int → Bool} {since now cutoff : Datetime}

/-- The number of entries of these feeds that have been fetched since then. -/
def fetchedSince (s : Service) (feeds : Int → Bool) (since : Datetime) : ℕ :=
  s.entries.countP (Entry.fetchedSince feeds since)

/-- All entries have been fetched since the beginning of time. -/
theorem fetchedSince_earliest (s : Service) (feeds : Int → Bool) :
    s.fetchedSince feeds .earliest = s.entries.countP fun e ↦ feeds e.feedId := by
  refine List.countP_congr fun e _ ↦ ?_
  have hle : Datetime.earliest ≤ e.fetchedAt := e.fetchedAt.nonneg
  rw [Entry.fetchedSince, decide_eq_true hle, Bool.and_true]

theorem Step.countP_le {p : Entry → Bool} (hs : s.Step cfg retention a s') (h : s.Sound)
    (hcap : 0 ≤ cfg.fetchMaxEntriesPerFetch) (hp : Singles p feeds since) :
    s'.entries.countP p ≤ s.entries.countP p +
      if a.storesSince feeds since then cfg.fetchMaxEntriesPerFetch.toNat else 0 := by
  cases hs with
  | @commit now c row up session domains cluster hstep hrow _ _ =>
      have hc : c ∈ s.cluster.held := by
        cases hstep with
        | finish _ hc _ _ _ _ => exact hc
      have hbatch := countP_upsertAll_le hp row.id c.now up.dbNow
        (processedBatch up cfg c.now (Tracked.loaded session domains ⟨row, []⟩))
        (.start s.entries s.nextEntryId)
      refine hbatch.trans (Nat.add_le_add_left ?_ _)
      rw [h.loaded c hc row hrow]
      show _ ≤ if (feeds c.feedId && decide (since ≤ c.now)) = true then _ else 0
      split
      · exact length_processedBatch_le hcap up c.now _
      · exact le_refl 0
  | remove _ => exact List.filter_sublist.countP_le.trans (Nat.le_add_right _ _)
  | sweep _ _ => exact List.filter_sublist.countP_le.trans (Nat.le_add_right _ _)
  | work _ _ => exact Nat.le_add_right _ _
  | register _ => exact Nat.le_add_right _ _
  | load _ => exact Nat.le_add_right _ _
  | reactivate _ _ _ => exact Nat.le_add_right _ _
  | beginSweep => exact Nat.le_add_right _ _
  | rollback _ _ => exact Nat.le_add_right _ _

theorem countP_run_le {p : Entry → Bool} {as : List ServiceAction} (h : s.Sound)
    (hcap : 0 ≤ cfg.fetchMaxEntriesPerFetch) (hp : Singles p feeds since)
    (hr : Run (Step cfg retention) s as t) :
    t.entries.countP p ≤ s.entries.countP p +
      as.countP (ServiceAction.storesSince feeds since) * cfg.fetchMaxEntriesPerFetch.toNat := by
  have hstep : ∀ (u : Service) (a : ServiceAction) (u' : Service),
      u.Sound → u.Step cfg retention a u' →
      u'.Sound ∧ u'.entries.countP p ≤ u.entries.countP p +
        if a.storesSince feeds since then cfg.fetchMaxEntriesPerFetch.toNat else 0 :=
    fun _ _ _ hu hs ↦ ⟨hu.step hs, hs.countP_le hu hcap hp⟩
  exact (hr.rises_le (P := Sound) hstep h).2

/-- Of what the rule keeps of a snapshot, a feed has its first entries, and those of the window. -/
theorem Sound.spared_le {fails : Bool} {scan : List Entry} {n : ℕ} (h : s.Sound)
    (hN : 0 ≤ retention.retentionMinPerFeed)
    (hcutoff : cutoff.micros = now.micros - retention.retentionDays * microsPerDay)
    (hscan : scan.Perm (victims cutoff retention.retentionMinPerFeed s.entries))
    (hn : (tickOnce retention now fails scan s.entries).1 = .ok n)
    (hshort : retention.retentionBatchSize ≤ 0 ∨
      (victims cutoff retention.retentionMinPerFeed s.entries).length <
        retention.retentionBatchSize) (feeds : Int → Bool) :
    s.entries.countP (Entry.spared feeds (sweptIds retention now fails scan s.entries)) ≤
      (s.cluster.table.countP fun f ↦ feeds f.id) * retention.retentionMinPerFeed.toNat +
        s.fetchedSince feeds cutoff := by
  have hkept : s.entries.countP (Entry.spared feeds (sweptIds retention now fails scan s.entries)) =
      ((retentionRule cutoff retention.retentionMinPerFeed).kept s.entries).countP
        fun e ↦ feeds e.feedId := by
    rw [← filter_sweptIds_short h.entryIds.keyed hN hcutoff hscan hn hshort, List.countP_filter]
    rfl
  rw [hkept, List.countP_eq_length_filter (l := s.cluster.table), ← List.length_map (f := Feed.id)]
  refine Retention.countP_kept_le (keyed_recency h.entryIds.keyed) fun e he hfeeds ↦ ?_
  obtain ⟨f, hf, hid⟩ := h.references e he
  have hfeeds' : feeds f.id = true := by rw [hid]; exact hfeeds
  exact List.mem_map.mpr ⟨f, List.mem_filter.mpr ⟨hf, hfeeds'⟩, hid⟩

/-- What is stored of any set of feeds after such a sweep is bounded: the first entries of each of
these feeds, and what the fetches of the window and those since the snapshot can have stored. -/
theorem storage_bounded {s₀ s₁ s₂ : Service} {before during after : List ServiceAction}
    {fails : Bool} {scan : List Entry} {n : ℕ} (h : s₀.Sound)
    (hN : 0 ≤ retention.retentionMinPerFeed) (hcap : 0 ≤ cfg.fetchMaxEntriesPerFetch)
    (hbefore : Run (Step cfg retention) s₀ before s)
    (hbegin : s.Step cfg retention .beginSweep s₁) (hduring : Run (Step cfg retention) s₁ during s₂)
    (hs : s₂.Step cfg retention (.sweep now fails scan s.entries) t)
    (hcutoff : cutoff.micros = now.micros - retention.retentionDays * microsPerDay)
    (hn : (tickOnce retention now fails scan s.entries).1 = .ok n)
    (hshort : retention.retentionBatchSize ≤ 0 ∨
      (victims cutoff retention.retentionMinPerFeed s.entries).length <
        retention.retentionBatchSize)
    (hafter : Run (Step cfg retention) t after u) (feeds : Int → Bool) :
    (u.entries.countP fun e ↦ feeds e.feedId) ≤
      (s.cluster.table.countP fun f ↦ feeds f.id) * retention.retentionMinPerFeed.toNat +
        s₀.fetchedSince feeds cutoff +
        (before.countP (ServiceAction.storesSince feeds cutoff) +
          (during ++ after).countP (ServiceAction.storesSince feeds .earliest)) *
            cfg.fetchMaxEntriesPerFetch.toNat := by
  have hsound : s.Sound := h.run hbefore
  have hsound₁ : s₁.Sound := hsound.step hbegin
  have hsound₂ : s₂.Sound := hsound₁.run hduring
  have hentries : s₁.entries = s.entries := by
    cases hbegin
    rfl
  have htotal : s.fetchedSince feeds cutoff ≤ s₀.fetchedSince feeds cutoff +
      before.countP (ServiceAction.storesSince feeds cutoff) *
        cfg.fetchMaxEntriesPerFetch.toNat :=
    countP_run_le h hcap (singles_fetchedSince feeds cutoff) hbefore
  have hscan : scan.Perm (victims cutoff retention.retentionMinPerFeed s.entries) := by
    cases hs with
    | sweep _ hscan => exact hscan cutoff hcutoff
  have hkept := hsound.spared_le hN hcutoff hscan hn hshort feeds
  have hrunning := countP_run_le hsound₁ hcap
    (singles_spared feeds (sweptIds retention now fails scan s.entries)) hduring
  have hswept : (t.entries.countP fun e ↦ feeds e.feedId) =
      s₂.entries.countP (Entry.spared feeds (sweptIds retention now fails scan s.entries)) := by
    cases hs with
    | sweep _ _ => exact List.countP_filter
  have hlast := countP_run_le (hsound₂.step hs) hcap (singles_spared feeds []) hafter
  rw [Entry.spared_nil] at hlast
  rw [hentries] at hrunning
  rw [List.countP_append, Nat.add_mul, Nat.add_mul]
  omega

/-- Ninety days before the year 2101. -/
def lastSeason : Datetime := ⟨Datetime.year2101.micros - 90 * microsPerDay, by decide, by decide⟩

open Cluster (fresh leased firstClaim)

/-- The statement of a sweep has begun. -/
def sweptMeanwhile : Service := { tended with sweeping := [tended.entries] }

/-- A document of one entry is stored between the snapshot of a sweep and its end. -/
theorem published_bounded : ∃ t u : Service, sweptMeanwhile.Step {} {} firstPublished.1 t ∧
    t.Step {} {} (.sweep .year2101 false [] tended.entries) u ∧
    (u.entries.countP fun e ↦ e.feedId = 1) ≤
      (tended.cluster.table.countP fun f ↦ f.id = 1) * 20 +
        tended.fetchedSince (fun id ↦ id = 1) lastSeason +
        (0 + [firstPublished.1].countP (ServiceAction.storesSince (fun id ↦ id = 1) .earliest)) *
          200 := by
  have hbegin : tended.Step {} {} .beginSweep sweptMeanwhile := .beginSweep
  have hdurable : isDurable ((firstClaim (some (leased (fresh 1)))).run {} publishing
      (.start [] 1) [] (leased (fresh 1))) = true := by decide +kernel
  obtain ⟨t, ht, -⟩ := (tended_sound.step hbegin).commit_enabled (List.mem_singleton.mpr rfl) rfl
    hdurable ⟨_, List.mem_singleton.mpr rfl, rfl⟩
  have hfirst : ∀ e ∈ tended.entries, rowNumber tended.entries e ≤ (20 : Int) := by
    intro e he
    cases List.mem_singleton.mp he
    decide +kernel
  have hnone := victims_eq_nil hfirst
  obtain ⟨u, hsweep⟩ : ∃ u, t.Step {} {} (.sweep .year2101 false [] tended.entries) u := by
    have hsweeping : t.sweeping = [tended.entries] := by
      cases ht
      rfl
    exact ⟨_, .sweep (hsweeping ▸ List.mem_singleton.mpr rfl) fun cutoff _ ↦
      .of_eq (hnone cutoff).symm⟩
  have hdeleted : (tickOnce {} .year2101 false [] tended.entries).1 = .ok 0 := rfl
  have hcutoff : lastSeason.micros = Datetime.year2101.micros - 90 * microsPerDay := rfl
  have hshort : (victims lastSeason 20 tended.entries).length < (1000 : Int) := by
    rw [hnone]
    decide
  exact ⟨t, u, ht, hsweep, storage_bounded tended_sound (by decide) (by decide) .nil hbegin
    (Run.single ht) hsweep hcutoff hdeleted (.inr hshort) .nil fun id ↦ id = 1⟩

end Service

end FeedgateFetcher
