import FeedgateFetcher.Fetcher.Loops
import FeedgateFetcher.Logic.WorkPool
import FeedgateFetcher.Workers

/-!
# The scheduler tick

`scheduler.tick_once`: the feeds of one claim are processed by `asyncio.gather` under a
semaphore of `fetch_concurrency` permits, which are given out in the order of the
claim.  While a `_process_feed` holds its permit it is counted in
`SCHEDULER_INFLIGHT_FETCHES`, so the gauge is the number of running tasks.

The runs are those in which every `_process_feed` returns.  One that raises, which takes an error
within its own error path (a rollback that fails), makes `gather` and with it `tick_once` raise;
such a tick has no result.
-/

namespace FeedgateFetcher

open Python Logic

/-! ## The result -/

/-- What `asyncio.gather` returns: the outcomes in the order of the claimed feeds. -/
def gathered (feedIds : List Int) (finished : List (Int × Bool)) : List Bool :=
  feedIds.filterMap fun feedId ↦ finished.lookup feedId

/-- The `SchedulerTickResult` of `tick_once`. -/
def tickResult (feedIds : List Int) (outcomes : List Bool) (durationSeconds : ℚ) :
    SchedulerTickResult :=
  if feedIds.isEmpty then ⟨0, 0, 0, durationSeconds⟩
  else
    { claimed := feedIds.length
      processed := outcomes.countP fun ok ↦ ok
      fatalErrors := outcomes.countP fun ok ↦ !ok
      durationSeconds := durationSeconds }

section

variable {feedIds : List Int} {finished : List (Int × Bool)}

theorem length_gathered (h : ∀ feedId ∈ feedIds, ∃ ok, (feedId, ok) ∈ finished) :
    (gathered feedIds finished).length = feedIds.length := by
  unfold gathered
  induction feedIds with
  | nil => rfl
  | cons feedId feedIds ih =>
      have hrest := ih fun id hid ↦ h id (List.mem_cons_of_mem _ hid)
      obtain ⟨ok, hok⟩ := h feedId List.mem_cons_self
      rcases hlookup : finished.lookup feedId with _ | b
      · have hne := List.lookup_eq_none_iff.mp hlookup (feedId, ok) hok
        simp at hne
      · rw [List.filterMap_cons, hlookup, List.length_cons, List.length_cons, hrest]

/-- Every claimed feed is counted once. -/
theorem tickResult_claimed (durationSeconds : ℚ)
    (h : ∀ feedId ∈ feedIds, ∃ ok, (feedId, ok) ∈ finished) :
    let result := tickResult feedIds (gathered feedIds finished) durationSeconds
    result.claimed = feedIds.length ∧
      result.claimed = result.processed + result.fatalErrors := by
  unfold tickResult
  split
  · rename_i hempty
    rw [List.isEmpty_iff.mp hempty]
    exact ⟨rfl, rfl⟩
  · refine ⟨rfl, ?_⟩
    have hsplit := List.length_eq_countP_add_countP (fun ok : Bool ↦ ok)
      (l := gathered feedIds finished)
    simp only [Bool.not_eq_true, Bool.decide_eq_false] at hsplit
    exact (length_gathered h).symm.trans hsplit

end

/-! ## The tasks -/

/-- The `_process_feed` calls of a tick. -/
abbrev TickPool := WorkPool Int Int Bool

/-- The number of limits that `n` calls need with this many permits. -/
def rounds (n permits : ℕ) : ℕ := (n + permits - 1) / permits

theorem rounds_mono {n m : ℕ} (permits : ℕ) (h : n ≤ m) : rounds n permits ≤ rounds m permits :=
  Nat.div_le_div_right (by omega)

/-- In every run of a tick whose calls of `_process_feed` all return, no more feeds are processed at
once than the semaphore admits, every claimed feed is processed once, and some call can be started
or ended until all have ended, for which there is time for as many limits as there are rounds.  At
the end the result accounts for every claimed feed. -/
theorem tick_accounts (cfg : Settings) {now : Datetime} {scan table table' : List Feed}
    {feedIds : List Int} {fetchConcurrency : ℕ} {limit begun : Int}
    {es : List (WorkPool.Event Int Int Bool)} {pool : TickPool}
    (hkeys : (table.map Feed.id).Nodup) (hscan : scan.Subperm table)
    (hclaim : claimDueFeeds now cfg.fetchClaimBatchSize cfg.fetchClaimTtlSeconds
      cfg.deadProbeIntervalDays scan table = .ok (feedIds, table'))
    (hpos : 0 < fetchConcurrency) (hlimit : 0 ≤ limit)
    (hrun : Run (WorkPool.Step fetchConcurrency limit) (.opened feedIds begun) es pool) :
    pool.running.length ≤ fetchConcurrency ∧
    es.countP WorkPool.Event.isWork ≤ 2 * cfg.fetchClaimBatchSize ∧
    (pool.finished.map Prod.fst ++ pool.unfinished).Perm feedIds ∧
    (pool.unfinished ≠ [] →
      (∃ e pool', pool.Step fetchConcurrency limit e pool' ∧ e.isWork = true) ∧
      pool.clock ≤ begun + rounds cfg.fetchClaimBatchSize fetchConcurrency * limit) ∧
    (pool.unfinished = [] → ∀ durationSeconds : ℚ,
      let result := tickResult feedIds (gathered feedIds pool.finished) durationSeconds
      result.claimed = feedIds.length ∧ result.claimed ≤ cfg.fetchClaimBatchSize ∧
        result.claimed = result.processed + result.fatalErrors) := by
  obtain ⟨hbatch, -, -⟩ := claimDueFeeds_spec hkeys hscan hclaim
  have hcons := (WorkPool.conserves_opened fetchConcurrency feedIds begun).run hrun
  have hpaced := (WorkPool.paced_opened fetchConcurrency limit feedIds begun).run hlimit hpos hrun
  have hlength := hcons.length_eq
  refine ⟨hcons.bounded, ?_, hcons.perm, fun hunfinished ↦ ⟨?_, ?_⟩, ?_⟩
  · have hcount := WorkPool.countP_isWork hrun
    have hfinished : pool.finished.length ≤ pool.started := Nat.le_add_right _ _
    change _ + (0 + 0) = _ at hcount
    omega
  · exact WorkPool.exists_step limit true hpos hunfinished
  · have hclock := hpaced.clock_le hlimit hpos hlength hunfinished
    have hrounds := rounds_mono fetchConcurrency hbatch
    rw [nsmul_eq_mul] at hclock
    refine hclock.trans (Int.add_le_add_left (Int.mul_le_mul_of_nonneg_right ?_ hlimit) _)
    exact Int.ofNat_le.mpr hrounds
  · intro hdone durationSeconds
    have hperm := hcons.perm
    rw [hdone, List.append_nil] at hperm
    have hall : ∀ feedId ∈ feedIds, ∃ ok, (feedId, ok) ∈ pool.finished := by
      intro feedId hid
      obtain ⟨⟨id, ok⟩, hmem, rfl⟩ := List.mem_map.mp (hperm.mem_iff.mpr hid)
      exact ⟨ok, hmem⟩
    obtain ⟨hclaimed, hsum⟩ := tickResult_claimed durationSeconds hall
    exact ⟨hclaimed, hclaimed.trans_le hbatch, hsum⟩

/-- Two feeds under one permit, the second of which fails. -/
theorem tick_accounts_two :
    (tickResult [1, 2] (gathered [1, 2] [(1, true), (2, false)]) 3).claimed = 2 ∧
      (tickResult [1, 2] (gathered [1, 2] [(1, true), (2, false)]) 3).fatalErrors = 1 := by
  have hclaim : claimDueFeeds .year2000 8 90 7 [Cluster.fresh 1, Cluster.fresh 2]
      [Cluster.fresh 1, Cluster.fresh 2] =
        .ok ([1, 2], [Cluster.leased (Cluster.fresh 1), Cluster.leased (Cluster.fresh 2)]) := by
    decide +kernel
  have hrun : Run (WorkPool.Step 1 30) (WorkPool.opened [1, 2] 0 : TickPool)
      [.start 1, .pass 20, .finish 1 true, .start 2, .finish 2 false]
      ⟨[], [], [(1, true), (2, false)], 20⟩ := by
    have hfinish : ∀ (s : TickPool) (task : Task Int Int) (ok : Bool), task ∈ s.running →
        s.Step 1 30 (.finish task.job ok) (s.finish task ok) := fun _ _ ok h ↦ .finish h ok
    have h₁ : WorkPool.Step 1 30 (WorkPool.opened [1, 2] 0 : TickPool) (.start 1)
        ⟨[2], [⟨1, 0, 0⟩], [], 0⟩ := .start rfl (by decide)
    have h₂ : WorkPool.Step 1 30 (⟨[2], [⟨1, 0, 0⟩], [], 0⟩ : TickPool) (.pass 20)
        ⟨[2], [⟨1, 0, 0⟩], [], 20⟩ := .pass ⟨by decide, .inr (by decide), by decide⟩
    have h₃ := hfinish ⟨[2], [⟨1, 0, 0⟩], [], 20⟩ ⟨1, 0, 0⟩ true (by decide)
    have h₄ : WorkPool.Step 1 30 (⟨[2], [], [(1, true)], 20⟩ : TickPool) (.start 2)
        ⟨[], [⟨2, 1, 20⟩], [(1, true)], 20⟩ := .start rfl (by decide)
    have h₅ := hfinish ⟨[], [⟨2, 1, 20⟩], [(1, true)], 20⟩ ⟨2, 1, 20⟩ false (by decide)
    exact ((((Run.single h₁).snoc h₂).snoc h₃).snoc h₄).snoc h₅
  obtain ⟨-, -, -, -, hresult⟩ := tick_accounts {} (by decide) (List.Subperm.refl _) hclaim
    (by decide) (by decide) hrun
  exact ⟨(hresult rfl 3).1, by decide⟩

end FeedgateFetcher
