import FeedgateFetcher.Clocks
import FeedgateFetcher.Delays
import FeedgateFetcher.Logic.Waiting

/-!
# No feed starves

The claim takes the due feeds with the earliest `next_fetch_at` first, and both the lease and the
commit of a fetch put a feed behind all those whose turn has come.  So a due feed whose turn has
come and which the server does not skip is claimed as soon as the feeds whose turn came before have
been, whatever the workers do in between.

A dead feed is due by its last attempt.  While its `next_fetch_at` is still ahead it is due before
its turn, and nothing is said of it: it may be passed over as long as others fill the batches.
-/

namespace FeedgateFetcher

open Python Logic

/-- The action is a claim. -/
def Action.isClaim : Action → Bool
  | .claim _ _ _ _ => true
  | _ => false

namespace Cluster

/-- The feed is due, its turn has come, and no worker has it. -/
structure Waits (cfg : Settings) (f : Feed) (s : Cluster) : Prop where
  mem : f ∈ s.table
  unheld : ∀ c ∈ s.held, c.feedId ≠ f.id
  due : f.dueAt cfg.deadProbeIntervalDays s.clock.micros
  turn : f.nextFetchAt ≤ s.clock

/-- A step by which a feed is passed over: a claim whose server meets the row takes others. -/
def PassingStep (cfg : Settings) (f : Feed) (s : Cluster) (a : Action) (s' : Cluster) : Prop :=
  s.Step cfg a s' ∧ ∀ now worker scan ids, a = .claim now worker scan ids → f ∈ scan ∧ f.id ∉ ids

/-- The claims in progress that were made before the turn of the feed. -/
def early (f : Feed) (s : Cluster) : ℕ := s.held.countP fun c ↦ c.now < f.nextFetchAt

/-- What can still come before the feed: the rows whose turn is no later, and the claims that may
write one. -/
def precedence (f : Feed) (s : Cluster) : ℕ :=
  Waiting.upTo Feed.nextFetchAt f.nextFetchAt s.table + s.early f

variable {cfg : Settings} {s s' : Cluster} {a : Action} {f : Feed} {now : Datetime}

theorem dueAt_mono {probe t u : Int} (h : f.dueAt probe t) (htu : t ≤ u) : f.dueAt probe u := by
  rcases h with ⟨halive, hle⟩ | ⟨hdead, hnone | ⟨a, ha, hlt⟩⟩
  · exact .inl ⟨halive, hle.trans htu⟩
  · exact .inr ⟨hdead, .inl hnone⟩
  · exact .inr ⟨hdead, .inr ⟨a, ha, by omega⟩⟩

/-- A claim that leaves a due feed out takes a full batch of feeds whose turn is no later. -/
theorem claim_full {probeCutoff : Datetime} {batch : ℕ} {scan table : List Feed}
    (hkeys : (table.map Feed.id).Nodup) (hscan : scan.Subperm table) (hf : f ∈ scan)
    (hdue : claimPredicate now probeCutoff f) (hout : f.id ∉ claimIds now probeCutoff batch scan) :
    table.countP (fun g ↦ g.id ∈ claimIds now probeCutoff batch scan) = batch ∧
      ∀ g ∈ table, g.id ∈ claimIds now probeCutoff batch scan → g.nextFetchAt ≤ f.nextFetchAt := by
  have hmem : f ∈ scan.filter fun g ↦ claimPredicate now probeCutoff g :=
    List.mem_filter.mpr ⟨hf, decide_eq_true hdue⟩
  have hnot : f ∉ ((scan.filter fun g ↦ claimPredicate now probeCutoff g).insertionSort
      fun f g ↦ f.nextFetchAt ≤ g.nextFetchAt).take batch :=
    fun htake ↦ hout (List.mem_map_of_mem htake)
  obtain ⟨hlength, hle⟩ := Waiting.batch_full hmem hnot
  have hsub : ∀ g ∈ (List.insertionSort (fun f g ↦ f.nextFetchAt ≤ g.nextFetchAt)
      (scan.filter fun g ↦ claimPredicate now probeCutoff g)).take batch, g ∈ table := by
    intro g hg
    have hg := List.mem_of_mem_take hg
    rw [List.mem_insertionSort, List.mem_filter] at hg
    exact hscan.subset hg.1
  have hback : ∀ g ∈ table, g.id ∈ claimIds now probeCutoff batch scan →
      g ∈ (List.insertionSort (fun f g ↦ f.nextFetchAt ≤ g.nextFetchAt)
        (scan.filter fun g ↦ claimPredicate now probeCutoff g)).take batch := by
    intro g hg hid
    obtain ⟨g', hg', hid'⟩ := List.mem_map.mp hid
    obtain rfl : g' = g := List.inj_on_of_nodup_map hkeys (hsub g' hg') hg hid'
    exact hg'
  refine ⟨?_, fun g hg hid ↦ hle g (hback g hg hid)⟩
  have hnodup := List.Nodup.of_map _ hkeys
  have hscanned : scan.Nodup := by
    obtain ⟨l, hperm, hsublist⟩ := hscan
    exact hperm.nodup_iff.mp (hnodup.sublist hsublist)
  have hsorted : ((List.insertionSort (fun f g ↦ f.nextFetchAt ≤ g.nextFetchAt)
      (scan.filter fun g ↦ claimPredicate now probeCutoff g)).take batch).Nodup :=
    ((List.perm_insertionSort _ _).nodup_iff.mpr (hscanned.filter _)).sublist
      (List.take_sublist _ _)
  rw [List.countP_eq_length_filter]
  refine Eq.trans (List.Perm.length_eq ?_) hlength
  refine (List.perm_ext_iff_of_nodup (hnodup.filter _) hsorted).mpr fun g ↦ ?_
  rw [List.mem_filter, decide_eq_true_eq]
  exact ⟨fun h ↦ hback g h.1 h.2, fun h ↦ ⟨hsub g h, List.mem_map_of_mem h⟩⟩

/-- A feed that is passed over goes on waiting. -/
theorem Waits.step (h : s.Waits cfg f) (hs : s.PassingStep cfg f a s') : s'.Waits cfg f := by
  obtain ⟨hstep, hpassed⟩ := hs
  have hclock := hstep.clock_le
  refine ⟨?_, ?_, dueAt_mono h.due hclock, h.turn.trans hclock⟩
  · cases hstep with
    | claim _ _ htable _ _ =>
        exact (mem_claimDueFeeds_of_notMem (hpassed _ _ _ _ rfl).2 htable).mpr h.mem
    | finish _ hc _ htable _ _ =>
        rw [htable]
        exact (settle_id (h.unheld _ hc).symm).mpr h.mem
    | load _ _ _ _ htable _ _ => exact htable ▸ h.mem
    | abandon _ htable _ _ => exact htable ▸ h.mem
    | crash _ htable _ _ => exact htable ▸ h.mem
  · intro d hd
    cases hstep with
    | claim _ _ _ hheld _ =>
        rw [hheld] at hd
        rcases List.mem_append.mp hd with hd | hd
        · exact h.unheld d hd
        · obtain ⟨id, hid, rfl⟩ := List.mem_map.mp hd
          exact fun heq ↦ (hpassed _ _ _ _ rfl).2 (heq ▸ hid)
    | load _ hc _ _ _ hheld _ =>
        rw [hheld] at hd
        obtain ⟨d', hd', rfl⟩ := List.mem_map.mp hd
        split
        · exact (h.unheld _ hc :)
        · exact h.unheld d' hd'
    | finish _ _ _ _ hheld _ =>
        rw [hheld] at hd
        exact h.unheld d (List.mem_of_mem_erase hd)
    | abandon _ _ hheld _ =>
        rw [hheld] at hd
        exact h.unheld d (List.mem_of_mem_erase hd)
    | crash _ _ hheld _ =>
        rw [hheld] at hd
        exact h.unheld d (List.mem_of_mem_filter hd)

/-! ## What a step does to the precedence -/

theorem early_of_sublist (h : s'.held.Sublist s.held) (f : Feed) : s'.early f ≤ s.early f :=
  h.countP_le

/-- A feed is claimed to its place behind the one that waits. -/
theorem precedence_claim {worker : Nat} {scan : List Feed} {ids : List Int}
    (httl : 0 < cfg.fetchClaimTtlSeconds) (h : s.Waits cfg f)
    (hs : s.Step cfg (.claim now worker scan ids) s') (hf : f ∈ scan) (hout : f.id ∉ ids) :
    s'.precedence f + cfg.fetchClaimBatchSize ≤ s.precedence f := by
  cases hs with
  | claim hclock hscan htable hheld hnow =>
      obtain ⟨probeCutoff, leaseUntil, hcut, hlease, hids, htable'⟩ := claimDueFeeds_ok htable
      have hout' : f.id ∉ claimIds now probeCutoff cfg.fetchClaimBatchSize scan := by
        intro hid
        rw [hids] at hout
        exact hout (List.mem_map.mpr ⟨f, List.mem_filter.mpr ⟨h.mem, decide_eq_true hid⟩, rfl⟩)
      obtain ⟨hcount, hfirst⟩ := claim_full s.keys hscan hf
        ((claimPredicate_iff hcut f).mpr (dueAt_mono h.due hclock)) hout'
      have hturn : f.nextFetchAt.micros ≤ now.micros := h.turn.trans hclock
      have hserve : ∀ g ∈ s.table,
          g.id ∈ claimIds now probeCutoff cfg.fetchClaimBatchSize scan →
          g.nextFetchAt ≤ f.nextFetchAt ∧ f.nextFetchAt < (g.lease now leaseUntil).nextFetchAt := by
        intro g hg hid
        refine ⟨hfirst g hg hid, ?_⟩
        show f.nextFetchAt.micros < leaseUntil.micros
        simp only [microsPerSecond] at hlease
        omega
      have htaken := Waiting.upTo_serve hserve
      rw [hcount, ← htable'] at htaken
      have hearly : s'.early f = s.early f := by
        rw [early, hheld, List.countP_append]
        refine (Nat.add_eq_left).mpr (List.countP_eq_zero.mpr fun d hd ↦ ?_)
        obtain ⟨id, -, rfl⟩ := List.mem_map.mp hd
        rw [decide_eq_true_eq, Datetime.lt_def]
        exact not_lt.mpr hturn
      rw [precedence, precedence, hearly]
      omega

/-- A fetch puts its feed behind the one that waits, if it was claimed after its turn. -/
theorem precedence_finish (hcfg : cfg.Valid) (hdelay : 0 < cfg.shortestDelay) {c : Claim}
    {row : Feed} {up : Upstream} {session : Session} {domains : List Text} (hc : c ∈ s.held)
    (htable : s'.table = c.settle cfg up session domains row s.table)
    (hheld : s'.held = s.held.erase c) : s'.precedence f ≤ s.precedence f := by
  have hearly : s.early f = s'.early f + if c.now < f.nextFetchAt then 1 else 0 := by
    rw [early, early, hheld, (List.perm_cons_erase hc).countP_eq, List.countP_cons]
    simp only [decide_eq_true_eq]
  rw [precedence, precedence, hearly, htable]
  by_cases hd : isDurable (c.run cfg up session domains row) = true
  · rw [show c.settle cfg up session domains row s.table = s.table.map fun g ↦
      if g.id = c.feedId then Feed.writeBack row (c.run cfg up session domains row).2.feed g
      else g from if_pos hd]
    by_cases hlate : c.now < f.nextFetchAt
    · have hone : s.table.countP (fun g ↦ g.id = c.feedId) ≤ 1 := by
        have hcount := List.nodup_iff_count_le_one.mp s.keys c.feedId
        rw [List.count_eq_countP, List.countP_map] at hcount
        exact hcount
      rw [if_pos hlate]
      refine (Nat.add_le_add_right Waiting.upTo_change_le _).trans ?_
      omega
    · have hpostpone : ∀ g ∈ s.table, g.id = c.feedId →
          (Feed.writeBack row (c.run cfg up session domains row).2.feed g).nextFetchAt ≤
            f.nextFetchAt → g.nextFetchAt ≤ f.nextFetchAt := by
        intro g _ _ hle
        change (if _ = _ then _ else _) ≤ _ at hle
        split at hle
        · exact hle
        · have hput := processing_delay hcfg hd
          have hnow : f.nextFetchAt.micros ≤ c.now.micros := not_lt.mp hlate
          rw [Datetime.le_def] at hle
          change _ ≤ (c.run cfg up session domains row).2.feed.nextFetchAt.micros at hput
          omega
      rw [if_neg hlate]
      exact Nat.add_le_add_right (Waiting.upTo_postpone hpostpone) _
  · rw [show c.settle cfg up session domains row s.table = s.table from if_neg hd]
    omega

/-- A claim takes a batch off what can come before the feed, and no other step adds to it. -/
theorem Waits.precedence_le (hcfg : cfg.Valid) (httl : 0 < cfg.fetchClaimTtlSeconds)
    (hdelay : 0 < cfg.shortestDelay) (h : s.Waits cfg f) (hs : s.PassingStep cfg f a s') :
    s'.precedence f + (if a.isClaim then cfg.fetchClaimBatchSize else 0) ≤ s.precedence f := by
  obtain ⟨hstep, hpassed⟩ := hs
  cases a with
  | claim now worker scan ids =>
      obtain ⟨hf, hout⟩ := hpassed _ _ _ _ rfl
      exact precedence_claim httl h hstep hf hout
  | load now c row =>
      cases hstep with
      | load _ _ _ _ htable hheld _ =>
          have hearly : s'.early f = s.early f := by
            rw [early, early, hheld, List.countP_map]
            refine List.countP_congr fun d _ ↦ ?_
            simp only [Function.comp]
            split
            · subst d
              exact Iff.rfl
            · exact Iff.rfl
          rw [precedence, precedence, hearly, htable]
          exact le_refl _
  | finish now c up session domains =>
      cases hstep with
      | finish _ hc _ htable hheld _ => exact precedence_finish hcfg hdelay hc htable hheld
  | abandon now c =>
      cases hstep with
      | abandon _ htable hheld _ =>
          rw [precedence, precedence, htable]
          exact Nat.add_le_add_left (early_of_sublist (hheld ▸ List.erase_sublist) f) _
  | crash now worker =>
      cases hstep with
      | crash _ htable hheld _ =>
          rw [precedence, precedence, htable]
          exact Nat.add_le_add_left (early_of_sublist (hheld ▸ List.filter_sublist) f) _

/-- In every run in which a due feed is passed over, the claims have taken no more feeds than could
come before it. -/
theorem passed_over_bounded (hcfg : cfg.Valid) (httl : 0 < cfg.fetchClaimTtlSeconds)
    (hdelay : 0 < cfg.shortestDelay) {s₀ : Cluster} {as : List Action} (h₀ : s₀.Waits cfg f)
    (h : Run (PassingStep cfg f) s₀ as s) :
    as.countP Action.isClaim * cfg.fetchClaimBatchSize < s₀.precedence f := by
  have hstep : ∀ t a u, Waits cfg f t → PassingStep cfg f t a u → Waits cfg f u ∧
      precedence f u + (if a.isClaim then cfg.fetchClaimBatchSize else 0) ≤ precedence f t :=
    fun t a u ht hs ↦ ⟨ht.step hs, ht.precedence_le hcfg httl hdelay hs⟩
  obtain ⟨hwaits, hcost⟩ := Run.countP_mul_le hstep h₀ h
  have hpos : 0 < s.precedence f := Nat.add_pos_left (Waiting.upTo_pos hwaits.mem) _
  omega

/-- The second of two feeds that are due is passed over once at most. -/
theorem second_passed_over : idle.precedence (fresh 2) = 2 ∧
    1 * ({ fetchClaimBatchSize := 1 } : Settings).fetchClaimBatchSize <
      idle.precedence (fresh 2) := by
  refine ⟨by decide, ?_⟩
  have hstep : idle.Step { fetchClaimBatchSize := 1 }
      (.claim .year2000 1 [fresh 1, fresh 2] [1]) oneClaimed :=
    .claim (le_refl _) (List.Subperm.refl _) (by decide +kernel) rfl rfl
  have hwaits : idle.Waits { fetchClaimBatchSize := 1 } (fresh 2) :=
    ⟨by decide, fun _ hc ↦ absurd hc List.not_mem_nil, .inl ⟨by decide, le_refl _⟩, le_refl _⟩
  have hvalid : ({ fetchClaimBatchSize := 1 } : Settings).Valid := by
    obtain ⟨h₁, h₂, h₃, h₄, h₅, h₆, h₇, h₈, h₉, h₁₀⟩ := Settings.valid_default
    exact ⟨h₁, h₂, h₃, h₄, h₅, h₆, h₇, h₈, h₉, h₁₀⟩
  have hpassed : idle.PassingStep { fetchClaimBatchSize := 1 } (fresh 2)
      (.claim .year2000 1 [fresh 1, fresh 2] [1]) oneClaimed := by
    refine ⟨hstep, ?_⟩
    rintro _ _ _ _ ⟨⟩
    exact ⟨by decide, by decide⟩
  exact passed_over_bounded hvalid (by decide) (by decide +kernel) hwaits (Run.single hpassed)

end Cluster

end FeedgateFetcher
