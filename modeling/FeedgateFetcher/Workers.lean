import FeedgateFetcher.Fetcher.Scheduler
import FeedgateFetcher.Logic.Lease

/-!
# Workers

Any number of workers on one `feeds` table.  A claim closes a row in two ways at
once, one for each arm of the claim predicate; the cluster is therefore a lease
pool, whose resources are the rows and whose deadlines are the claim TTL, and
inherits its exclusivity.
-/

namespace FeedgateFetcher

open Python Logic

/-! ## When a row is due -/

/-- The claim predicate at an instant `t` of the clock, in microseconds. -/
def Feed.dueAt (deadProbeIntervalDays t : Int) (f : Feed) : Prop :=
  (f.status ≠ .dead ∧ f.nextFetchAt.micros ≤ t) ∨
    (f.status = .dead ∧ (f.lastAttemptAt = none ∨
      ∃ a ∈ f.lastAttemptAt, a.micros < t - deadProbeIntervalDays * microsPerDay))

theorem claimPredicate_iff {now probeCutoff : Datetime} {probe : Int}
    (h : probeCutoff.micros = now.micros - probe * microsPerDay) (f : Feed) :
    claimPredicate now probeCutoff f ↔ f.dueAt probe now.micros := by
  simp only [claimPredicate, Feed.dueAt, Datetime.le_def, Datetime.lt_def, h]

/-- A leased row of a feed that is not dead is due from the end of the lease on. -/
theorem dueAt_lease_of_ne {now leaseUntil : Datetime} {probe t : Int} {f : Feed}
    (hs : f.status ≠ .dead) :
    (f.lease now leaseUntil).dueAt probe t ↔ leaseUntil.micros ≤ t := by
  simp [Feed.dueAt, Feed.lease, hs]

/-- A leased row of a dead feed is due once the probe interval is over. -/
theorem dueAt_lease_of_dead {now leaseUntil : Datetime} {probe t : Int} {f : Feed}
    (hs : f.status = .dead) :
    (f.lease now leaseUntil).dueAt probe t ↔ now.micros < t - probe * microsPerDay := by
  simp [Feed.dueAt, Feed.lease, hs]

/-- A lease closes a row until it ends, if it is not longer than the probe interval. -/
theorem not_dueAt_lease {now leaseUntil : Datetime} {ttl probe t : Int} (f : Feed)
    (hlease : leaseUntil.micros = now.micros + ttl * microsPerSecond)
    (hprobe : ttl * microsPerSecond ≤ probe * microsPerDay)
    (ht : t < now.micros + ttl * microsPerSecond) : ¬(f.lease now leaseUntil).dueAt probe t := by
  by_cases hs : f.status = .dead
  · rw [dueAt_lease_of_dead hs]
    omega
  · rw [dueAt_lease_of_ne hs]
    omega

/-! ## What a claim returns -/

section

variable {now probeCutoff : Datetime} {batch : Nat} {scan table : List Feed}

theorem mem_claimIds {id : Int} (h : id ∈ claimIds now probeCutoff batch scan) :
    ∃ f ∈ scan, f.id = id ∧ claimPredicate now probeCutoff f := by
  obtain ⟨f, hf, rfl⟩ := List.mem_map.mp h
  have hf := List.mem_of_mem_take hf
  rw [List.mem_insertionSort, List.mem_filter] at hf
  exact ⟨f, hf.1, rfl, by simpa using hf.2⟩

theorem claimIds_length_le (now probeCutoff : Datetime) (batch : Nat) (scan : List Feed) :
    (claimIds now probeCutoff batch scan).length ≤ batch := by
  unfold claimIds
  rw [List.length_map]
  exact List.length_take_le _ _

variable {ttl probe : Int} {ids : List Int} {table' : List Feed}

/-- A claim returns at most a batch of distinct feeds, all of them due. -/
theorem claimDueFeeds_spec (hkeys : (table.map Feed.id).Nodup) (hscan : scan.Subperm table)
    (h : claimDueFeeds now batch ttl probe scan table = .ok (ids, table')) :
    ids.length ≤ batch ∧ ids.Nodup ∧
      ∀ id ∈ ids, ∃ f ∈ table, f.id = id ∧ f.dueAt probe now.micros := by
  obtain ⟨probeCutoff, leaseUntil, hcut, -, rfl, -⟩ := claimDueFeeds_ok h
  have hnodup : ((table.filter fun f ↦ f.id ∈ claimIds now probeCutoff batch scan).map
      Feed.id).Nodup := hkeys.sublist (List.filter_sublist.map _)
  have hsub : (table.filter fun f ↦ f.id ∈ claimIds now probeCutoff batch scan).map Feed.id ⊆
      claimIds now probeCutoff batch scan := by
    intro id hid
    obtain ⟨f, hf, rfl⟩ := List.mem_map.mp hid
    simpa using (List.mem_filter.mp hf).2
  refine ⟨?_, hnodup, fun id hid ↦ ?_⟩
  · exact (List.subperm_of_subset hnodup hsub).length_le.trans (claimIds_length_le _ _ _ _)
  · obtain ⟨f, hf, hfid, hdue⟩ := mem_claimIds (hsub hid)
    exact ⟨f, hscan.subset hf, hfid, (claimPredicate_iff hcut f).mp hdue⟩

/-- Rows that do not satisfy `p` survive an update of those that do. -/
theorem mem_map_update {p : Feed → Prop} [DecidablePred p] {u : Feed → Feed} {table : List Feed}
    (hu : ∀ f, (u f).id = f.id) {f : Feed} (hp : ∀ g ∈ table, g.id = f.id → ¬p g) :
    f ∈ (table.map fun g ↦ if p g then u g else g) ↔ f ∈ table := by
  rw [List.mem_map]
  constructor
  · rintro ⟨g, hg, rfl⟩
    by_cases hpg : p g
    · rw [if_pos hpg] at hp
      exact absurd hpg (hp g hg (hu g).symm)
    · rwa [if_neg hpg]
  · intro hmem
    exact ⟨f, hmem, if_neg (hp f hmem rfl)⟩

/-- A claim leaves the claimed rows leased and the others as they are. -/
theorem mem_claimDueFeeds {f : Feed}
    (h : claimDueFeeds now batch ttl probe scan table = .ok (ids, table')) (hf : f ∈ table') :
    ∃ g ∈ table, g.id = f.id ∧ ((f.id ∉ ids ∧ f = g) ∨ f.id ∈ ids ∧
      ∃ leaseUntil : Datetime, leaseUntil.micros = now.micros + ttl * microsPerSecond ∧
        f = g.lease now leaseUntil) := by
  obtain ⟨probeCutoff, leaseUntil, -, hlease, rfl, rfl⟩ := claimDueFeeds_ok h
  obtain ⟨g, hg, rfl⟩ := List.mem_map.mp hf
  by_cases hid : g.id ∈ claimIds now probeCutoff batch scan
  · rw [if_pos hid]
    refine ⟨g, hg, rfl, .inr ⟨?_, leaseUntil, hlease, rfl⟩⟩
    exact List.mem_map.mpr ⟨g, List.mem_filter.mpr ⟨hg, by simpa using hid⟩, rfl⟩
  · rw [if_neg hid]
    refine ⟨g, hg, rfl, .inl ⟨fun hmem ↦ ?_, rfl⟩⟩
    obtain ⟨g', hg', hid'⟩ := List.mem_map.mp hmem
    exact hid (hid' ▸ by simpa using (List.mem_filter.mp hg').2)

/-- Rows that are not claimed stay. -/
theorem mem_claimDueFeeds_of_notMem {f : Feed} (hf : f.id ∉ ids)
    (h : claimDueFeeds now batch ttl probe scan table = .ok (ids, table')) :
    f ∈ table' ↔ f ∈ table := by
  obtain ⟨probeCutoff, leaseUntil, -, -, rfl, rfl⟩ := claimDueFeeds_ok h
  refine mem_map_update (p := fun g ↦ g.id ∈ claimIds now probeCutoff batch scan)
    (u := Feed.lease now leaseUntil) (fun _ ↦ rfl) fun g hg hid hmem ↦ hf ?_
  exact List.mem_map.mpr ⟨g, List.mem_filter.mpr ⟨hg, by simpa using hmem⟩, hid⟩

end

/-! ## The cluster -/

/-- A claimed feed that its worker has neither finished nor lost, with the row it has
loaded, if it has come to that. -/
structure Claim where
  worker : Nat
  feedId : Int
  now : Datetime
  loaded : Option Feed
deriving DecidableEq

/-- The table, whose rows have distinct keys, and what the workers are processing. -/
structure Cluster where
  table : List Feed
  keys : (table.map Feed.id).Nodup
  held : List Claim
  clock : Datetime

/-- The steps of the workers, each at its real time. -/
inductive Action where
  /-- A worker claims the feeds `ids`, the server having met the rows `scan`. -/
  | claim (now : Datetime) (worker : Nat) (scan : List Feed) (ids : List Int)
  | load (now : Datetime) (c : Claim) (row : Feed)
  | finish (now : Datetime) (c : Claim) (up : Upstream) (session : Session) (domains : List Text)
  | abandon (now : Datetime) (c : Claim)
  | crash (now : Datetime) (worker : Nat)

def Action.now : Action → Datetime
  | .claim now _ _ _ => now
  | .load now _ _ => now
  | .finish now _ _ _ _ => now
  | .abandon now _ => now
  | .crash now _ => now

/-- The table after the `_process_feed` of a claim, which runs with the instant of the
claim and is committed or rolled back. -/
def Claim.settle (cfg : Settings) (c : Claim) (up : Upstream) (session : Session)
    (domains : List Text) (row : Feed) (table : List Feed) : List Feed :=
  let run := processing up cfg c.now (Tracked.loaded session domains ⟨row, []⟩)
  if isDurable run then
    table.map fun f ↦ if f.id = c.feedId then Feed.writeBack row run.2.feed f else f
  else table

namespace Cluster

/-- One step of one worker. -/
inductive Step (cfg : Settings) (s : Cluster) : Action → Cluster → Prop
  | claim {now : Datetime} {worker : Nat} {scan : List Feed} {ids : List Int} {s' : Cluster}
    (hclock : s.clock ≤ now) (hscan : scan.Subperm s.table)
    (htable : claimDueFeeds now cfg.fetchClaimBatchSize cfg.fetchClaimTtlSeconds
      cfg.deadProbeIntervalDays scan s.table = .ok (ids, s'.table))
    (hheld : s'.held = s.held ++ ids.map fun id ↦ ⟨worker, id, now, none⟩)
    (hnow : s'.clock = now) : Step cfg s (.claim now worker scan ids) s'
  | load {now : Datetime} {c : Claim} {row : Feed} {s' : Cluster} (hclock : s.clock ≤ now)
    (hc : c ∈ s.held) (hrow : row ∈ s.table) (hid : row.id = c.feedId)
    (htable : s'.table = s.table)
    (hheld : s'.held = s.held.map fun d ↦ if d = c then { c with loaded := some row } else d)
    (hnow : s'.clock = now) : Step cfg s (.load now c row) s'
  | finish {now : Datetime} {c : Claim} {row : Feed} {up : Upstream} {session : Session}
    {domains : List Text} {s' : Cluster} (hclock : s.clock ≤ now) (hc : c ∈ s.held)
    (hrow : c.loaded = some row)
    (htable : s'.table = c.settle cfg up session domains row s.table)
    (hheld : s'.held = s.held.erase c) (hnow : s'.clock = now) :
    Step cfg s (.finish now c up session domains) s'
  | abandon {now : Datetime} {c : Claim} {s' : Cluster} (hclock : s.clock ≤ now)
    (htable : s'.table = s.table) (hheld : s'.held = s.held.erase c) (hnow : s'.clock = now) :
    Step cfg s (.abandon now c) s'
  | crash {now : Datetime} {worker : Nat} {s' : Cluster} (hclock : s.clock ≤ now)
    (htable : s'.table = s.table) (hheld : s'.held = s.held.filter fun c ↦ c.worker ≠ worker)
    (hnow : s'.clock = now) : Step cfg s (.crash now worker) s'

/-- No feed is still being processed when its lease ends. -/
def Timely (cfg : Settings) (s : Cluster) (now : Datetime) : Prop :=
  ∀ c ∈ s.held, now.micros < c.now.micros + cfg.fetchClaimTtlSeconds * microsPerSecond

instance (cfg : Settings) (s : Cluster) (now : Datetime) : Decidable (s.Timely cfg now) :=
  inferInstanceAs (Decidable (∀ c ∈ s.held, _))

/-- A step of a cluster whose workers are in time. -/
def TimelyStep (cfg : Settings) (s : Cluster) (a : Action) (s' : Cluster) : Prop :=
  s.Timely cfg a.now ∧ s.Step cfg a s'

end Cluster

/-! ## The cluster is a lease pool -/

def Claim.grant (c : Claim) : Grant Int Nat Int := ⟨c.feedId, c.worker, c.now.micros⟩

/-- The end of a lease, in microseconds. -/
def leaseEnd (cfg : Settings) (t : Int) : Int := t + cfg.fetchClaimTtlSeconds * microsPerSecond

namespace Cluster

/-- The rows are the resources, and are available when they are due. -/
def pool (cfg : Settings) (s : Cluster) : LeasePool Int Nat Int where
  available id t := ∃ f ∈ s.table, f.id = id ∧ f.dueAt cfg.deadProbeIntervalDays t
  held := s.held.map Claim.grant
  clock := s.clock.micros

variable {cfg : Settings} {s s' : Cluster} {a : Action}

theorem pool_available_congr {id : Int} (h : ∀ f : Feed, f.id = id → (f ∈ s'.table ↔ f ∈ s.table)) :
    (s'.pool cfg).available id = (s.pool cfg).available id := by
  funext t
  refine propext (exists_congr fun f ↦ ?_)
  constructor
  · rintro ⟨hf, hid, hdue⟩
    exact ⟨(h f hid).mp hf, hid, hdue⟩
  · rintro ⟨hf, hid, hdue⟩
    exact ⟨(h f hid).mpr hf, hid, hdue⟩

theorem settle_id {c : Claim} {up : Upstream} {session : Session} {domains : List Text} {row : Feed}
    {table : List Feed} {f : Feed} (hf : f.id ≠ c.feedId) :
    f ∈ c.settle cfg up session domains row table ↔ f ∈ table := by
  simp only [Claim.settle]
  split
  · exact mem_map_update (p := fun g ↦ g.id = c.feedId)
      (u := Feed.writeBack row (processing up cfg c.now
        (Tracked.loaded session domains ⟨row, []⟩)).2.feed)
      (fun _ ↦ rfl) fun g _ hid hmem ↦ hf (hid.symm.trans hmem)
  · exact Iff.rfl

theorem loaded_grants {c : Claim} {row : Feed} (held : List Claim) :
    (held.map fun d ↦ if d = c then { c with loaded := some row } else d).map Claim.grant =
      held.map Claim.grant := by
  rw [List.map_map]
  refine List.map_congr_left fun d _ ↦ ?_
  simp only [Function.comp]
  split
  · subst d
    rfl
  · rfl

/-- The end of some grants, with a table in which the other feeds keep their rows. -/
theorem release_step {now : Datetime} (kept : List Claim) (hclock : s.clock ≤ now)
    (hkept : (kept.map Claim.grant).Sublist (s.held.map Claim.grant))
    (hrows : ∀ c ∈ kept, ∀ f : Feed, f.id = c.feedId → (f ∈ s'.table ↔ f ∈ s.table))
    (hheld : s'.held.map Claim.grant = kept.map Claim.grant) (hnow : s'.clock = now) :
    (s.pool cfg).Step (leaseEnd cfg) now.micros (s'.pool cfg) := by
  have hpool : s'.pool cfg = ⟨(s'.pool cfg).available, kept.map Claim.grant, now.micros⟩ := by
    rw [← hheld, ← hnow]
    rfl
  rw [hpool]
  refine .release hclock hkept fun g hg ↦ ?_
  obtain ⟨c, hc, rfl⟩ := List.mem_map.mp hg
  exact pool_available_congr (hrows c hc)

/-- A worker's step is a step of the lease pool. -/
theorem Step.refines (hprobe : cfg.fetchClaimTtlSeconds * microsPerSecond ≤
      cfg.deadProbeIntervalDays * microsPerDay)
    (hex : (s.pool cfg).Exclusive (leaseEnd cfg)) (h : s.Step cfg a s') :
    (s.pool cfg).Step (leaseEnd cfg) a.now.micros (s'.pool cfg) := by
  cases h with
  | @claim now worker scan ids _ hclock hscan htable hheld hnow =>
      obtain ⟨-, hnodup, hdue⟩ := claimDueFeeds_spec s.keys hscan htable
      have hpool : s'.pool cfg = ⟨(s'.pool cfg).available,
          (s.pool cfg).held ++ ids.map fun id ↦ ⟨id, worker, now.micros⟩, now.micros⟩ := by
        simp only [pool, hheld, hnow, List.map_append, List.map_map]
        rfl
      rw [hpool]
      refine .grant hclock hnodup hdue ?_ ?_
      · rintro id hid t - hlt ⟨f, hf, rfl, hfdue⟩
        obtain ⟨g, -, -, ⟨hnot, -⟩ | ⟨-, leaseUntil, hlease, rfl⟩⟩ := mem_claimDueFeeds htable hf
        · exact hnot hid
        · exact not_dueAt_lease g hlease hprobe hlt hfdue
      · intro id hid
        exact pool_available_congr fun f hf ↦ mem_claimDueFeeds_of_notMem (hf ▸ hid) htable
  | load hclock _ _ _ htable hheld hnow =>
      refine release_step s.held hclock (List.Sublist.refl _) (fun _ _ _ _ ↦ ?_) ?_ hnow
      · rw [htable]
      · rw [hheld, loaded_grants]
  | @finish now c row up session domains _ hclock hc hrow htable hheld hnow =>
      refine release_step (s.held.erase c) hclock (List.erase_sublist.map _)
        (fun d hd f hf ↦ ?_) (by rw [hheld]) hnow
      -- no other claim of the same feed is held
      have hne : d.feedId ≠ c.feedId := by
        have hn : ((c :: s.held.erase c).map Claim.feedId).Nodup := by
          have hm := hex.nodup
          simp only [pool, List.map_map] at hm
          exact (List.Perm.map _ (List.perm_cons_erase hc)).nodup_iff.mp hm
        intro heq
        exact (List.nodup_cons.mp hn).1 (heq ▸ List.mem_map_of_mem hd)
      rw [htable]
      exact settle_id (hf ▸ hne)
  | @abandon now c _ hclock htable hheld hnow =>
      exact release_step (s.held.erase c) hclock (List.erase_sublist.map _)
        (fun _ _ _ _ ↦ by rw [htable]) (by rw [hheld]) hnow
  | @crash now worker _ hclock htable hheld hnow =>
      exact release_step (s.held.filter fun c ↦ c.worker ≠ worker) hclock
        (List.filter_sublist.map _) (fun _ _ _ _ ↦ by rw [htable]) (by rw [hheld]) hnow

theorem Timely.pool {now : Datetime} (h : s.Timely cfg now) :
    (s.pool cfg).Timely (leaseEnd cfg) now.micros := by
  intro g hg
  obtain ⟨c, hc, rfl⟩ := List.mem_map.mp hg
  exact h c hc

theorem Step.clock_le (h : s.Step cfg a s') : s.clock ≤ s'.clock := by
  cases h with
  | claim hclock _ _ _ hnow => exact hclock.trans hnow.ge
  | load hclock _ _ _ _ _ hnow => exact hclock.trans hnow.ge
  | finish hclock _ _ _ _ hnow => exact hclock.trans hnow.ge
  | abandon hclock _ _ hnow => exact hclock.trans hnow.ge
  | crash hclock _ _ hnow => exact hclock.trans hnow.ge

/-- In an exclusive pool no feed is claimed twice. -/
theorem nodup_of_exclusive (hex : (s.pool cfg).Exclusive (leaseEnd cfg)) :
    (s.held.map Claim.feedId).Nodup := by
  have hnodup := hex.nodup
  simp only [pool, List.map_map] at hnodup
  exact hnodup

theorem feedId_ne_of_mem_erase (hex : (s.pool cfg).Exclusive (leaseEnd cfg)) {c d : Claim}
    (hc : c ∈ s.held) (hd : d ∈ s.held.erase c) : d.feedId ≠ c.feedId := by
  have hnodup := (List.Perm.map _ (List.perm_cons_erase hc)).nodup_iff.mp (nodup_of_exclusive hex)
  intro heq
  exact (List.nodup_cons.mp hnodup).1 (heq ▸ List.mem_map_of_mem hd)

theorem exclusive_of_idle (cfg : Settings) (h : s.held = []) :
    (s.pool cfg).Exclusive (leaseEnd cfg) := by
  have hheld : (s.pool cfg).held = [] := by
    rw [pool, h]
    rfl
  exact ⟨by rw [hheld]; exact .nil, by rw [hheld]; exact List.forall_mem_nil _,
    by rw [hheld]; exact List.forall_mem_nil _⟩

/-- Every timely run of a cluster that starts idle is a timely run of the lease pool. -/
theorem refines {s₀ : Cluster} {as : List Action} (hprobe : cfg.fetchClaimTtlSeconds *
      microsPerSecond ≤ cfg.deadProbeIntervalDays * microsPerDay)
    (h₀ : s₀.held = []) (h : Run (TimelyStep cfg) s₀ as s) :
    ∃ ts, Run (LeasePool.TimelyStep (leaseEnd cfg)) (s₀.pool cfg) ts (s.pool cfg) := by
  obtain ⟨ts, p, hrun, rfl, -⟩ := h.simulates
    (LeasePool.TimelyStep (leaseEnd cfg)) (fun s p ↦ p = s.pool cfg ∧ p.Exclusive (leaseEnd cfg))
    (fun s a t p hR hstep ↦ by
      obtain ⟨rfl, hex⟩ := hR
      have hs : (s.pool cfg).TimelyStep (leaseEnd cfg) a.now.micros (t.pool cfg) :=
        ⟨hstep.1.pool, hstep.2.refines hprobe hex⟩
      exact ⟨_, _, .single hs, rfl, hex.step hs⟩)
    ⟨rfl, exclusive_of_idle cfg h₀⟩
  exact ⟨ts, hrun⟩

/-- In every timely run, whatever is claimed next is not being processed, and a claim returns
at most a batch of distinct feeds, all of them due. -/
theorem exclusive_claims {s₀ : Cluster} {as : List Action}
    (hprobe : cfg.fetchClaimTtlSeconds * microsPerSecond ≤
      cfg.deadProbeIntervalDays * microsPerDay)
    (h₀ : s₀.held = []) (h : Run (TimelyStep cfg) s₀ as s) :
    (s.held.map Claim.feedId).Nodup ∧
    ∀ now worker scan ids s', s.TimelyStep cfg (.claim now worker scan ids) s' →
      (∀ c ∈ s.held, c.feedId ∉ ids) ∧ ids.length ≤ cfg.fetchClaimBatchSize ∧ ids.Nodup ∧
      ∀ id ∈ ids, ∃ f ∈ s.table, f.id = id ∧ f.dueAt cfg.deadProbeIntervalDays now.micros := by
  obtain ⟨ts, hrun⟩ := refines hprobe h₀ h
  have hex := (exclusive_of_idle cfg h₀).run hrun
  constructor
  · have hm := hex.nodup
    simp only [pool, List.map_map] at hm
    exact hm
  · rintro now worker scan ids s' ⟨htimely, hstep⟩
    cases hstep with
    | claim hclock hscan htable hheld hnow =>
        obtain ⟨hlen, hnodup, hdue⟩ := claimDueFeeds_spec s.keys hscan htable
        refine ⟨fun c hc hid ↦ ?_, hlen, hnodup, hdue⟩
        refine hex.notMem_held htimely.pool hclock (hdue _ hid) ?_
        exact List.mem_map.mpr ⟨c.grant, List.mem_map_of_mem hc, rfl⟩

/-! ### Two workers -/

/-- The feed number `id`, registered and due at the beginning of the year 2000. -/
def fresh (id : Int) : Feed := .registered id "http://a.example/feed".toList .year2000 .year2000

/-- The end of a lease that begins with the year 2000. -/
def expiry : Datetime := ⟨63082281690000000, by decide, by decide⟩

/-- A row leased for ninety seconds. -/
def leased (f : Feed) : Feed := f.lease .year2000 expiry

/-- Two idle workers who take one feed at a time. -/
def idle : Cluster := ⟨[fresh 1, fresh 2], by decide, [], .year2000⟩

/-- The first worker has claimed the first feed. -/
def oneClaimed : Cluster :=
  ⟨[leased (fresh 1), fresh 2], by decide, [⟨1, 1, .year2000, none⟩], .year2000⟩

/-- The second worker has claimed the second feed. -/
def bothClaimed : Cluster :=
  ⟨[leased (fresh 1), leased (fresh 2)], by decide,
    [⟨1, 1, .year2000, none⟩, ⟨2, 2, .year2000, none⟩], .year2000⟩

theorem bothClaimed_distinct : (oneClaimed.held.map Claim.feedId).Nodup ∧
    ∀ c ∈ oneClaimed.held, c.feedId ∉ [(2 : Int)] := by
  have h₁ : TimelyStep { fetchClaimBatchSize := 1 } idle
      (.claim .year2000 1 [fresh 1, fresh 2] [1]) oneClaimed :=
    ⟨fun _ hc ↦ absurd hc List.not_mem_nil,
      .claim (le_refl _) (List.Subperm.refl _) (by decide +kernel) rfl rfl⟩
  have h₂ : TimelyStep { fetchClaimBatchSize := 1 } oneClaimed
      (.claim .year2000 2 [leased (fresh 1), fresh 2] [2]) bothClaimed :=
    ⟨by decide, .claim (le_refl _) (List.Subperm.refl _) (by decide +kernel) rfl rfl⟩
  have h := exclusive_claims (by decide) rfl (Run.single h₁)
  exact ⟨h.1, (h.2 _ _ _ _ _ h₂).1⟩

end Cluster

/-! ## Recovery -/

/-- How the work on a claimed feed is lost. -/
inductive Loss where
  | crash
  | rollback (up : Upstream) (session : Session) (domains : List Text)

namespace Loss

/-- The loss can happen to the `_process_feed` of this row. -/
def Happens (cfg : Settings) (now : Datetime) (row : Feed) : Loss → Prop
  | .crash => True
  | .rollback up session domains =>
    isDurable (processing up cfg now (Tracked.loaded session domains ⟨row, []⟩)) = false

/-- The row after the loss. -/
def row (cfg : Settings) (now : Datetime) (row : Feed) : Loss → Feed
  | .crash => row
  | .rollback up session domains =>
    (processFeed up cfg now (Tracked.loaded session domains ⟨row, []⟩)).feed

theorem row_eq {cfg : Settings} {now : Datetime} {row : Feed} {loss : Loss}
    (h : loss.Happens cfg now row) : loss.row cfg now row = row := by
  cases loss with
  | crash => rfl
  | rollback up session domains => exact processFeed_feed_of_not_durable h

end Loss

/-- A claimed row whose worker is lost satisfies the claim predicate from the end of the lease on
exactly if the feed is not dead or the probe interval is shorter than the lease. -/
theorem claimable_after_loss_iff (cfg : Settings) (loss : Loss) {now : Datetime}
    {scan table : List Feed} {ids : List Int} {table' : List Feed} {f : Feed}
    (h : claimDueFeeds now cfg.fetchClaimBatchSize cfg.fetchClaimTtlSeconds
      cfg.deadProbeIntervalDays scan table = .ok (ids, table'))
    (hf : f ∈ table') (hid : f.id ∈ ids) (hloss : loss.Happens cfg now f) :
    (∀ t probeCutoff : Datetime,
      now.micros + cfg.fetchClaimTtlSeconds * microsPerSecond ≤ t.micros →
      probeCutoff.micros = t.micros - cfg.deadProbeIntervalDays * microsPerDay →
      claimPredicate t probeCutoff (loss.row cfg now f)) ↔
    f.status ≠ .dead ∨ cfg.deadProbeIntervalDays * microsPerDay <
      cfg.fetchClaimTtlSeconds * microsPerSecond := by
  obtain ⟨probeCutoff₀, leaseUntil₀, hcut₀, hlease₀, -, -⟩ := claimDueFeeds_ok h
  obtain ⟨g, -, -, ⟨hnot, -⟩ | ⟨-, leaseUntil, hlease, rfl⟩⟩ := mem_claimDueFeeds h hf
  · exact absurd hid hnot
  rw [Loss.row_eq hloss]
  constructor
  · intro hall
    by_contra hn
    obtain ⟨hdead, hle⟩ : g.status = .dead ∧ cfg.fetchClaimTtlSeconds * microsPerSecond ≤
        cfg.deadProbeIntervalDays * microsPerDay := by
      simpa [Feed.lease] using hn
    -- an instant at which the probe interval is not over, though the lease is
    have hinstant : ∃ t probeCutoff : Datetime,
        now.micros + cfg.fetchClaimTtlSeconds * microsPerSecond ≤ t.micros ∧
        probeCutoff.micros = t.micros - cfg.deadProbeIntervalDays * microsPerDay ∧
        probeCutoff.micros ≤ now.micros := by
      have h₁ := leaseUntil.nonneg
      have h₂ := probeCutoff₀.nonneg
      have h₃ := now.le_max
      by_cases hprobe : cfg.deadProbeIntervalDays * microsPerDay < 0 ∨
          0 ≤ cfg.fetchClaimTtlSeconds * microsPerSecond
      · refine ⟨leaseUntil, ⟨leaseUntil.micros - cfg.deadProbeIntervalDays * microsPerDay,
          by omega, by omega⟩, hlease.ge, rfl, ?_⟩
        show leaseUntil.micros - cfg.deadProbeIntervalDays * microsPerDay ≤ now.micros
        omega
      · exact ⟨now, probeCutoff₀, by omega, hcut₀, by omega⟩
    obtain ⟨t, probeCutoff, ht, hcut, hle'⟩ := hinstant
    have hdue := hall t probeCutoff ht hcut
    rw [claimPredicate_iff hcut, dueAt_lease_of_dead hdead] at hdue
    omega
  · intro hor t probeCutoff ht hcut
    rw [claimPredicate_iff hcut]
    by_cases hs : g.status = .dead
    · rw [dueAt_lease_of_dead hs]
      have := hor.resolve_left (not_not_intro hs)
      omega
    · rw [dueAt_lease_of_ne hs]
      omega

/-- A dead feed whose last probe is long ago. -/
def probed : Feed :=
  { Feed.registered 1 "http://a.example/feed".toList .year2000 .year2000 with
    status := .dead
    lastAttemptAt := some .earliest }

/-- The row of `probed` in the hands of a worker that has claimed it. -/
def probing : Feed := probed.lease .year2000 ⟨63082281690000000, by decide, by decide⟩

/-- Ninety seconds after the claim, a dead feed whose worker has crashed is not due. -/
theorem probing_not_claimable :
    claimDueFeeds .year2000 8 90 7 [probed] [probed] = .ok ([1], [probing]) ∧
    ¬claimPredicate ⟨63082281690000000, by decide, by decide⟩
      ⟨63082281690000000 - 7 * microsPerDay, by decide, by decide⟩
      (Loss.crash.row {} .year2000 probing) :=
  ⟨by decide +kernel, by decide⟩

/-- Under a probe interval of zero days it is. -/
theorem probing_claimable_under_short_probe :
    claimPredicate ⟨63082281690000000, by decide, by decide⟩
      ⟨63082281690000000, by decide, by decide⟩ (Loss.crash.row {} .year2000 probing) := by
  have h : claimDueFeeds .year2000 8 90 0 [probed] [probed] = .ok ([1], [probing]) := by
    decide +kernel
  exact (claimable_after_loss_iff { deadProbeIntervalDays := 0 } .crash h
    (List.mem_singleton.mpr rfl) (List.mem_singleton.mpr rfl) trivial).mpr (.inr (by decide))
    _ _ (by decide) (by decide)

end FeedgateFetcher
