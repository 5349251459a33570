import Mathlib.Data.Int.ConditionallyCompleteOrder
import FeedgateFetcher.Logic.Reopening
import FeedgateFetcher.Service

/-!
# How many fetches of one feed overlap

In the whole service the leases are those of a pool whose resources can be reopened: the commit of
a reactivation makes a feed due whoever has claimed it.  Registrations, removals and sweeps leave
the leases alone.
-/

namespace FeedgateFetcher

open Python Logic

/-- The action reactivates the feed. -/
def ServiceAction.reactivates (feedId : Int) : ServiceAction → Bool
  | .reactivate row _ => row.id = feedId
  | _ => false

/-- A step of a service in which no feed is still being processed when its lease ends and another
claim is made. -/
def Service.TimelyStep (cfg : Settings) (retention : RetentionSettings) (s : Service)
    (a : ServiceAction) (s' : Service) : Prop :=
  s.Step cfg retention a s' ∧ ∀ now worker scan ids, a = .work (.claim now worker scan ids) →
    s.cluster.Timely cfg now

namespace Cluster

variable {cfg : Settings} {s s' : Cluster} {a : Action} {feedId : Int} {n : ℕ}

theorem monotone_leaseEnd (cfg : Settings) : Monotone (leaseEnd cfg) := fun _ _ h ↦
  Int.add_le_add_right h _

theorem pool_available_mono
    (h : ∀ f : Feed, f.id = feedId → f ∈ s'.table → f ∈ s.table) (t : Int)
    (ht : (s'.pool cfg).available feedId t) : (s.pool cfg).available feedId t := by
  obtain ⟨f, hf, hid, hdue⟩ := ht
  exact ⟨f, h f hid hf, hid, hdue⟩

/-- A batch of claims gives a feed that it contains one more holder. -/
theorem holders_claimed {ids : List Int} {worker : Nat} {now : Datetime} (hnodup : ids.Nodup)
    (hheld : s'.held = s.held ++ ids.map fun id ↦ ⟨worker, id, now, none⟩) :
    (s'.pool cfg).holders feedId = (s.pool cfg).holders feedId ++
      if feedId ∈ ids then [⟨feedId, worker, now.micros⟩] else [] := by
  have htaken : (ids.map fun id ↦ (⟨id, worker, now.micros⟩ : Grant Int Nat Int)).filter
      (fun g ↦ g.resource = feedId) =
        if feedId ∈ ids then [⟨feedId, worker, now.micros⟩] else [] := by
    rw [List.filter_map]
    have hfilter : ids.filter ((fun g : Grant Int Nat Int ↦ decide (g.resource = feedId)) ∘
        fun id ↦ ⟨id, worker, now.micros⟩) = List.replicate (ids.count feedId) feedId :=
      List.filter_eq feedId
    rw [hfilter, hnodup.count]
    split
    · rfl
    · rfl
  rw [← htaken]
  refine Eq.trans (congrArg (List.filter _) ?_) (List.filter_append _ _)
  show s'.held.map Claim.grant = s.held.map Claim.grant ++ _
  rw [hheld, List.map_append, List.map_map]
  rfl

/-- A worker's step takes no reopening. -/
theorem Step.lent (hprobe : cfg.fetchClaimTtlSeconds * microsPerSecond ≤
      cfg.deadProbeIntervalDays * microsPerDay)
    (htimely : ∀ now worker scan ids, a = .claim now worker scan ids → s.Timely cfg now)
    (h : (s.pool cfg).Lent (leaseEnd cfg) feedId n) (hs : s.Step cfg a s') :
    (s'.pool cfg).Lent (leaseEnd cfg) feedId n := by
  have hclock : (s.pool cfg).clock ≤ (s'.pool cfg).clock := hs.clock_le
  cases hs with
  | @claim now worker scan ids _ _ hscan htable hheld hnow =>
      obtain ⟨-, hnodup, hdue⟩ := claimDueFeeds_spec s.keys hscan htable
      have hholders : (s'.pool cfg).holders feedId = (s.pool cfg).holders feedId ++
          if feedId ∈ ids then [⟨feedId, worker, now.micros⟩] else [] :=
        holders_claimed hnodup hheld
      have hnow' : (s'.pool cfg).clock = now.micros := congrArg Datetime.micros hnow
      by_cases hid : feedId ∈ ids
      · rw [if_pos hid] at hholders
        refine h.take (monotone_leaseEnd cfg) hholders hnow'.symm hclock ?_ ?_ ?_
        · rw [hnow']
          exact (htimely _ _ _ _ rfl).pool
        · rw [hnow']
          exact hdue feedId hid
        · rintro t ht ⟨f, hf, rfl, hfdue⟩
          obtain ⟨g, -, -, ⟨hnot, -⟩ | ⟨-, leaseUntil, hlease, rfl⟩⟩ := mem_claimDueFeeds htable hf
          · exact hnot hid
          · rw [hnow'] at ht
            exact not_dueAt_lease g hlease hprobe ht hfdue
      · rw [if_neg hid, List.append_nil] at hholders
        refine h.leave (hholders ▸ .refl _) hclock (pool_available_mono fun f hf hmem ↦ ?_)
        exact (mem_claimDueFeeds_of_notMem (hf ▸ hid) htable).mp hmem
  | @load now c row _ _ _ _ _ htable hheld _ =>
      refine h.leave ?_ hclock (pool_available_mono fun f _ hmem ↦ htable ▸ hmem)
      have hgrants : s'.held.map Claim.grant = s.held.map Claim.grant := by
        rw [hheld, loaded_grants]
      exact (hgrants ▸ List.Sublist.refl _ :
        (s'.held.map Claim.grant).Sublist (s.held.map Claim.grant)).filter _
  | @finish now c row up session domains _ _ hc _ htable hheld _ =>
      have hsub : ((s'.pool cfg).holders feedId).Sublist ((s.pool cfg).holders feedId) := by
        refine List.Sublist.filter _ ?_
        show (s'.held.map Claim.grant).Sublist (s.held.map Claim.grant)
        rw [hheld]
        exact List.erase_sublist.map _
      by_cases hid : c.feedId = feedId
      · refine h.give_back hsub ?_ hclock
        have hperm : ((s.pool cfg).holders feedId).Perm
            (c.grant :: (s'.pool cfg).holders feedId) := by
          have hmap : (s.held.map Claim.grant).Perm
              (c.grant :: (s.held.erase c).map Claim.grant) := (List.perm_cons_erase hc).map _
          rw [← hheld] at hmap
          refine (hmap.filter fun g ↦ g.resource = feedId).trans (.of_eq ?_)
          exact List.filter_cons_of_pos (decide_eq_true hid)
        rw [hperm.length_eq, List.length_cons]
        exact Nat.lt_succ_self _
      · refine h.leave hsub hclock (pool_available_mono fun f hf hmem ↦ ?_)
        rw [htable] at hmem
        exact (settle_id fun heq ↦ hid (heq.symm.trans hf)).mp hmem
  | abandon _ htable hheld _ =>
      refine h.leave (List.Sublist.filter _ ?_) hclock
        (pool_available_mono fun f _ hmem ↦ htable ▸ hmem)
      show (s'.held.map Claim.grant).Sublist (s.held.map Claim.grant)
      rw [hheld]
      exact List.erase_sublist.map _
  | crash _ htable hheld _ =>
      refine h.leave (List.Sublist.filter _ ?_) hclock
        (pool_available_mono fun f _ hmem ↦ htable ▸ hmem)
      show (s'.held.map Claim.grant).Sublist (s.held.map Claim.grant)
      rw [hheld]
      exact List.filter_sublist.map _

/-- What is claimed has been claimed before, or is in the table. -/
theorem Step.claimed (h : s.Step cfg a s') : ∀ d ∈ s'.held,
    (∃ c ∈ s.held, c.feedId = d.feedId) ∨ ∃ f ∈ s.table, f.id = d.feedId := by
  intro d hd
  cases h with
  | claim _ hscan htable hheld _ =>
      rw [hheld] at hd
      rcases List.mem_append.mp hd with hd | hd
      · exact .inl ⟨d, hd, rfl⟩
      · obtain ⟨id, hid, rfl⟩ := List.mem_map.mp hd
        obtain ⟨f, hf, hfid, -⟩ := (claimDueFeeds_spec s.keys hscan htable).2.2 id hid
        exact .inr ⟨f, hf, hfid⟩
  | load _ hc _ _ _ hheld _ =>
      rw [hheld] at hd
      obtain ⟨c, hmem, rfl⟩ := List.mem_map.mp hd
      split
      · exact .inl ⟨_, hc, rfl⟩
      · exact .inl ⟨c, hmem, rfl⟩
  | finish _ _ _ _ hheld _ => exact .inl ⟨d, List.mem_of_mem_erase (hheld ▸ hd), rfl⟩
  | abandon _ _ hheld _ => exact .inl ⟨d, List.mem_of_mem_erase (hheld ▸ hd), rfl⟩
  | crash _ _ hheld _ => exact .inl ⟨d, List.mem_of_mem_filter (hheld ▸ hd), rfl⟩

end Cluster

namespace Service

variable {cfg : Settings} {retention : RetentionSettings} {s s' : Service} {a : ServiceAction}
  {feedId : Int} {n : ℕ}

theorem mem_writeRow {row mine f : Feed} {table : List Feed} (h : f.id ≠ row.id) :
    f ∈ writeRow row mine table ↔ f ∈ table :=
  mem_map_update (p := fun g ↦ g.id = row.id) (u := Feed.writeBack row mine) (fun _ ↦ rfl)
    fun _ _ hid hp ↦ h (hid.symm.trans hp)

/-- No claim is of a feed that has not been registered yet. -/
def Known (s : Service) : Prop := ∀ c ∈ s.cluster.held, c.feedId < s.nextFeedId

theorem Known.work {b : Action} {cluster : Cluster} (h : s.Known) (hs : s.Sound)
    (hb : s.cluster.Step cfg b cluster) : ∀ c ∈ cluster.held, c.feedId < s.nextFeedId := by
  intro d hd
  rcases hb.claimed d hd with ⟨c, hc, hid⟩ | ⟨f, hf, hid⟩
  · exact hid ▸ h c hc
  · exact hid ▸ hs.feedIds.lt f hf

theorem Known.step (h : s.Known) (hs : s.Sound) (ha : s.Step cfg retention a s') : s'.Known := by
  cases ha with
  | work hstep _ => exact h.work hs hstep
  | commit hstep _ _ _ => exact h.work hs hstep
  | register _ => exact fun c hc ↦ (h c hc).trans (Int.lt_succ _)
  | rollback hfeed _ => exact fun c hc ↦ (h c hc).trans_le hfeed
  | remove _ => exact h
  | load _ => exact h
  | reactivate _ _ _ => exact h
  | beginSweep => exact h
  | sweep _ _ => exact h

/-- Only a reactivation counts as a reopening. -/
theorem TimelyStep.lent (hprobe : cfg.fetchClaimTtlSeconds * microsPerSecond ≤
      cfg.deadProbeIntervalDays * microsPerDay) (hknown : s.Known)
    (h : (s.cluster.pool cfg).Lent (leaseEnd cfg) feedId n) (hs : s.TimelyStep cfg retention a s') :
    (s'.cluster.pool cfg).Lent (leaseEnd cfg) feedId
      (n + if a.reactivates feedId then 1 else 0) := by
  obtain ⟨hstep, htimely⟩ := hs
  cases hstep with
  | work hstep _ =>
      exact hstep.lent hprobe (fun _ _ _ _ ha ↦ htimely _ _ _ _ (congrArg _ ha)) h
  | commit hstep _ _ _ => exact hstep.lent hprobe (fun _ _ _ _ ha ↦ by cases ha) h
  | @register u now dbNow hkeys =>
      by_cases hid : feedId = s.nextFeedId
      · refine .of_nil (List.filter_eq_nil_iff.mpr fun g hg heq ↦ ?_) _
        obtain ⟨c, hc, rfl⟩ := List.mem_map.mp hg
        exact (hknown c hc).ne ((of_decide_eq_true heq).trans hid)
      · refine h.leave (.refl _) (le_refl _) (Cluster.pool_available_mono fun f hf hmem ↦ ?_)
        rcases List.mem_append.mp hmem with hmem | hmem
        · exact hmem
        · obtain ⟨hnew, -⟩ := insertFeed_eq_some (Option.mem_toList.mp hmem)
          exact absurd (hf.symm.trans (congrArg Feed.id hnew)) hid
  | remove hkeys =>
      exact h.leave (.refl _) (le_refl _)
        (Cluster.pool_available_mono fun f _ hmem ↦ (List.mem_filter.mp hmem).1)
  | @reactivate row now _ _ _ =>
      by_cases hid : row.id = feedId
      · rw [ServiceAction.reactivates, if_pos (decide_eq_true hid)]
        exact h.reopen (.refl _) (le_refl _)
      · rw [ServiceAction.reactivates, if_neg (by simpa using hid), Nat.add_zero]
        refine h.leave (.refl _) (le_refl _) (Cluster.pool_available_mono fun f hf hmem ↦ ?_)
        exact (mem_writeRow fun heq ↦ hid (heq.symm.trans hf)).mp hmem
  | load _ => exact h
  | beginSweep => exact h
  | sweep _ _ => exact h
  | rollback _ _ => exact h

/-- In every run of the service, the number of claims of one feed that are in progress at once
exceeds the number of its reactivations by one at most. -/
theorem overlap_le (hprobe : cfg.fetchClaimTtlSeconds * microsPerSecond ≤
      cfg.deadProbeIntervalDays * microsPerDay) {s₀ : Service} {as : List ServiceAction}
    (h₀ : s₀.Sound) (hidle : s₀.cluster.held = []) (h : Run (TimelyStep cfg retention) s₀ as s)
    (feedId : Int) :
    (s.cluster.held.countP fun c ↦ c.feedId = feedId) ≤
      as.countP (ServiceAction.reactivates feedId) + 1 := by
  have hinv : s.Sound ∧ s.Known ∧ (s.cluster.pool cfg).Lent (leaseEnd cfg) feedId
      (as.countP (ServiceAction.reactivates feedId)) := by
    induction h with
    | nil =>
        refine ⟨h₀, fun c hc ↦ ?_, .of_nil ?_ _⟩
        · rw [hidle] at hc
          cases hc
        · rw [LeasePool.holders, Cluster.pool, hidle]
          rfl
    | snoc _ hs ih =>
        obtain ⟨hsound, hknown, hlent⟩ := ih
        refine ⟨hsound.step hs.1, hknown.step hsound hs.1, ?_⟩
        rw [List.countP_append, List.countP_singleton]
        exact hs.lent hprobe hknown hlent
  have hcount : (s.cluster.held.countP fun c ↦ c.feedId = feedId) =
      ((s.cluster.pool cfg).holders feedId).length := by
    rw [LeasePool.holders, ← List.countP_eq_length_filter, Cluster.pool, List.countP_map]
    rfl
  rw [hcount]
  exact hinv.2.2.length_le

open Cluster (fresh leased firstClaim unclaimed claimed claim_first)

/-- One feed, which is due. -/
def due : Service := ⟨unclaimed, 2, [], 1, [], []⟩

theorem due_sound : due.Sound :=
  ⟨⟨by decide, by decide⟩, by decide, .nil _ _, .nil _, fun _ he ↦ absurd he List.not_mem_nil,
    fun _ hc ↦ absurd hc List.not_mem_nil, fun _ hs ↦ absurd hs List.not_mem_nil⟩

/-- The feed is claimed, and a request has loaded its row. -/
def asked : Service :=
  { due with cluster := claimed none, reactivating := [leased (fresh 1)] }

/-- The feed is due again while a worker fetches it. -/
def reactivated : Cluster :=
  ⟨writeRow (leased (fresh 1)) (reactivateFeed .year2000 ⟨leased (fresh 1), []⟩).feed
    [leased (fresh 1)], by decide +kernel, [firstClaim none], .year2000⟩

theorem leased_keys : ([leased (fresh 1)].map Feed.id).Nodup := by decide

def twiceClaimed : Cluster :=
  ⟨[leased (fresh 1)], leased_keys, [firstClaim none, ⟨2, 1, .year2000, none⟩], .year2000⟩

/-- A feed that is reactivated while one worker fetches it is claimed by another one. -/
theorem claimed_twice : (twiceClaimed.held.countP fun c ↦ c.feedId = 1) = 1 + 1 ∧
    (twiceClaimed.held.countP fun c ↦ c.feedId = 1) ≤ 1 + 1 := by
  have hfirst : TimelyStep {} {} due (.work (.claim .year2000 1 [fresh 1] [1]))
      { due with cluster := claimed none } :=
    ⟨.work claim_first rfl, fun _ _ _ _ _ _ hc ↦ absurd hc List.not_mem_nil⟩
  have hload : TimelyStep {} {} { due with cluster := claimed none } (.load (leased (fresh 1)))
      asked := ⟨.load (List.mem_singleton.mpr rfl), fun _ _ _ _ ha ↦ by cases ha⟩
  have hreactivate : TimelyStep {} {} asked (.reactivate (leased (fresh 1)) .year2000)
      { due with
        cluster := reactivated
        reactivating := [leased (fresh 1)].erase (leased (fresh 1)) } :=
    ⟨.reactivate (s := asked) (List.mem_singleton.mpr rfl) ⟨_, List.mem_singleton.mpr rfl, rfl⟩
      reactivated.keys,
      fun _ _ _ _ ha ↦ by cases ha⟩
  have hclaim : reactivated.Step {} (.claim .year2000 2 reactivated.table [1]) twiceClaimed :=
    .claim (le_refl _) (List.Subperm.refl _) (by decide +kernel) rfl rfl
  have hsecond : TimelyStep {} {} { due with
        cluster := reactivated
        reactivating := [leased (fresh 1)].erase (leased (fresh 1)) }
      (.work (.claim .year2000 2 reactivated.table [1]))
      { due with
        cluster := twiceClaimed
        reactivating := [leased (fresh 1)].erase (leased (fresh 1)) } :=
    ⟨.work hclaim rfl, fun _ _ _ _ ha ↦ by cases ha; decide⟩
  have hrun := (((Run.single hfirst).snoc hload).snoc hreactivate).snoc hsecond
  exact ⟨by decide, overlap_le (by decide) due_sound rfl hrun 1⟩

end Service

end FeedgateFetcher
