import Mathlib.Order.WithBot
import FeedgateFetcher.Fetcher.Aftermath
import FeedgateFetcher.Logic.Snapshot
import FeedgateFetcher.Runs
import FeedgateFetcher.Workers

/-!
# The clocks of a feed

`last_attempt_at` and `last_successful_fetch_at` under any number of workers, who
may be late.  A result carries the time of its claim, so it moves a clock back when
it is committed over the trace of a later claim.
-/

namespace FeedgateFetcher

open Python Logic

/-! ## What a fetch does to the clocks -/

/-- The fetch counts as a success, be it spoiled afterwards. -/
def Outcome.succeeds (o : Outcome) : Bool := o.answer.any fun a ↦ a ≠ .rateLimited

/-- The marks of a call set the success clock exactly when the call succeeds. -/
theorem Outcome.lastSuccessfulFetchAt (o : Outcome) (T D : Int) (now : Datetime) (p : History) :
    (runMarks T D (o.marks now) p).1.lastSuccessfulFetchAt =
      if o.succeeds then some now else p.1.lastSuccessfulFetchAt := by
  have hnotModified : ∀ l : Lifecycle,
      ((Mark.notModified now).apply T D l).lastSuccessfulFetchAt = some now := by
    intro l
    by_cases h : l.status = .broken <;> simp [Mark.apply, Mark.record, h]
  rcases o with a | code | a
  · cases a with
    | notModified => exact hnotModified p.1
    | _ => rfl
  · rfl
  · cases a with
    | notModified => exact hnotModified p.1
    | _ => rfl

section

variable {up : Upstream} {cfg : Settings} {now : Datetime} {s : FetchState}

/-- The clocks that a `_process_feed` commits. -/
theorem processing_clocks (h : isDurable (processing up cfg now s) = true) :
    ∃ o, processingOutcome up cfg now s = some o ∧
      (processing up cfg now s).2.feed.lastAttemptAt = some now ∧
      (processing up cfg now s).2.feed.lastSuccessfulFetchAt =
        if o.succeeds then some now else s.feed.lastSuccessfulFetchAt := by
  obtain ⟨o, ho, -, hhistory⟩ := processing_outcome h
  refine ⟨o, ho, ?_, ?_⟩
  · obtain ⟨s₁, s₂, -, hf, hc⟩ := processing_of_durable h
    have hfeed : (processing up cfg now s).2.feed = (fetchOne up cfg now s₁).2.feed := by
      rw [commit_frame hc, hf]
      rfl
    rcases hp : prepare up now s₁ with ⟨exc | weekly, s'⟩
    · rw [fetchOne, Act.bind_of_error hp] at hf
      cases hf
    · rw [hfeed]
      exact fetchOne_lastAttemptAt hp
  · have hlife := congrArg (fun p : History ↦ p.1.lastSuccessfulFetchAt) hhistory
    exact hlife.trans (o.lastSuccessfulFetchAt _ _ now _)

end

/-! ## Commits in order -/

/-- The lack of an instant is before all instants. -/
def moment (t : Option Datetime) : WithBot Datetime := t

def Feed.attempted (f : Feed) : WithBot Datetime := moment f.lastAttemptAt

def Feed.succeeded (f : Feed) : WithBot Datetime := moment f.lastSuccessfulFetchAt

theorem Feed.attempted_writeBack (loaded mine f : Feed) :
    (Feed.writeBack loaded mine f).attempted = f.attempted ∨
      (Feed.writeBack loaded mine f).attempted = mine.attempted :=
  writeBack_eq_or.imp (congrArg moment) (congrArg moment)

theorem Feed.attempted_le_writeBack {loaded mine f : Feed} :
    f.attempted ≤ (Feed.writeBack loaded mine f).attempted ↔
      mine.lastAttemptAt = loaded.lastAttemptAt ∨ f.attempted ≤ mine.attempted :=
  le_writeBack_iff moment

theorem Feed.succeeded_le_writeBack {loaded mine f : Feed} :
    f.succeeded ≤ (Feed.writeBack loaded mine f).succeeded ↔
      mine.lastSuccessfulFetchAt = loaded.lastSuccessfulFetchAt ∨ f.succeeded ≤ mine.succeeded :=
  le_writeBack_iff moment

/-- The clocks of no row go back. -/
def Forward (table table' : List Feed) : Prop :=
  ∀ f ∈ table, ∀ g ∈ table', f.id = g.id → f.attempted ≤ g.attempted ∧ f.succeeded ≤ g.succeeded

namespace Claim

variable (cfg : Settings) (c : Claim) (up : Upstream) (session : Session) (domains : List Text)
  (row : Feed)

/-- The `_process_feed` of the claim, which has loaded `row`. -/
def run : Except Exc PUnit × FetchState :=
  processing up cfg c.now (Tracked.loaded session domains ⟨row, []⟩)

/-- Its fetch is a success. -/
def Succeeds : Prop :=
  ∃ o, processingOutcome up cfg c.now (Tracked.loaded session domains ⟨row, []⟩) = some o ∧
    o.succeeds = true

/-- The claim had loaded its row when the feed was claimed again, if it was, and no success of a
later claim has been committed if it is a success itself. -/
def InOrder (table : List Feed) : Prop :=
  isDurable (c.run cfg up session domains row) = true → ∀ f ∈ table, f.id = c.feedId →
    row.lastAttemptAt = some c.now ∧ (c.Succeeds cfg up session domains row →
      row.lastSuccessfulFetchAt = some c.now ∨ f.succeeded ≤ c.now)

end Claim

namespace Cluster

/-- The step is not the commit of an overtaken result. -/
def InOrder (cfg : Settings) (s : Cluster) : Action → Prop
  | .finish _ c up session domains =>
    ∀ row, c.loaded = some row → c.InOrder cfg up session domains row s.table
  | _ => True

/-- A step that meets the condition. -/
def InOrderStep (cfg : Settings) (s : Cluster) (a : Action) (s' : Cluster) : Prop :=
  s.InOrder cfg a ∧ s.Step cfg a s'

/-- A step that sets no clock back. -/
def ForwardStep (cfg : Settings) (s : Cluster) (a : Action) (s' : Cluster) : Prop :=
  Forward s.table s'.table ∧ s.Step cfg a s'

/-- The claims in progress have left their time in their rows. -/
structure Sequenced (s : Cluster) : Prop where
  attempted : ∀ f ∈ s.table, f.attempted ≤ s.clock
  claimed : ∀ c ∈ s.held, c.now ≤ s.clock
  held : ∀ c ∈ s.held, ∀ f ∈ s.table, f.id = c.feedId → c.now ≤ f.attempted ∧
    ∀ row, c.loaded = some row → c.now ≤ row.attempted ∧ row.attempted ≤ f.attempted

variable {cfg : Settings} {s s' : Cluster} {a : Action} {c : Claim} {up : Upstream}
  {session : Session} {domains : List Text} {row : Feed}

theorem eq_of_id (s : Cluster) {f g : Feed} (hf : f ∈ s.table) (hg : g ∈ s.table)
    (h : f.id = g.id) : f = g := List.inj_on_of_nodup_map s.keys hf hg h

theorem forward_refl (s : Cluster) : Forward s.table s.table := by
  intro f hf g hg hid
  rw [s.eq_of_id hf hg hid]
  exact ⟨le_refl _, le_refl _⟩

section

variable (hd : isDurable (c.run cfg up session domains row) = true)

include hd

/-- The commit of a result leaves the attempt of the row alone, or sets it to the time of the
claim. -/
theorem attempted_le_result (f : Feed) :
    f.attempted ≤ (Feed.writeBack row (c.run cfg up session domains row).2.feed f).attempted ↔
      row.lastAttemptAt = some c.now ∨ f.attempted ≤ c.now := by
  obtain ⟨-, -, hattempt, -⟩ := processing_clocks hd
  replace hattempt : (c.run cfg up session domains row).2.feed.lastAttemptAt = some c.now :=
    hattempt
  have hmine : (c.run cfg up session domains row).2.feed.attempted = c.now :=
    congrArg moment hattempt
  rw [Feed.attempted_le_writeBack, hattempt, hmine, eq_comm]

theorem succeeded_le_result (f : Feed) :
    f.succeeded ≤ (Feed.writeBack row (c.run cfg up session domains row).2.feed f).succeeded ↔
      (c.Succeeds cfg up session domains row →
        row.lastSuccessfulFetchAt = some c.now ∨ f.succeeded ≤ c.now) := by
  obtain ⟨o, ho, -, hsuccess⟩ := processing_clocks hd
  replace hsuccess : (c.run cfg up session domains row).2.feed.lastSuccessfulFetchAt =
      if o.succeeds then some c.now else row.lastSuccessfulFetchAt := hsuccess
  rw [Feed.succeeded_le_writeBack]
  by_cases hs : o.succeeds = true
  · rw [if_pos hs] at hsuccess
    have hmine : (c.run cfg up session domains row).2.feed.succeeded = c.now :=
      congrArg moment hsuccess
    rw [hsuccess, hmine, eq_comm]
    exact ⟨fun h _ ↦ h, fun h ↦ h ⟨o, ho, hs⟩⟩
  · rw [if_neg hs] at hsuccess
    refine ⟨fun _ ⟨o', ho', hs'⟩ ↦ ?_, fun _ ↦ .inl hsuccess⟩
    cases ho.symm.trans ho'
    exact absurd hs' hs

end

/-- A row of the table after a result was there before, or is the feed's own as it was
committed. -/
theorem mem_settle {table : List Feed} {g : Feed}
    (hg : g ∈ c.settle cfg up session domains row table) :
    g ∈ table ∨ isDurable (c.run cfg up session domains row) = true ∧
      ∃ f ∈ table, f.id = c.feedId ∧
        g = Feed.writeBack row (c.run cfg up session domains row).2.feed f := by
  by_cases hd : isDurable (c.run cfg up session domains row) = true
  · rw [show c.settle cfg up session domains row table = _ from if_pos hd] at hg
    obtain ⟨f, hf, rfl⟩ := List.mem_map.mp hg
    by_cases hid : f.id = c.feedId
    · exact .inr ⟨hd, f, hf, hid, if_pos hid⟩
    · rw [if_neg hid]
      exact .inl hf
  · rw [show c.settle cfg up session domains row table = table from if_neg hd] at hg
    exact .inl hg

/-- A result sets no clock back exactly when it is committed in order. -/
theorem forward_settle_iff (s : Cluster)
    (hseq : ∀ f ∈ s.table, f.id = c.feedId →
      c.now ≤ row.attempted ∧ row.attempted ≤ f.attempted) :
    Forward s.table (c.settle cfg up session domains row s.table) ↔
      c.InOrder cfg up session domains row s.table := by
  constructor
  · intro hforward hd f hf hid
    have hmem : Feed.writeBack row (c.run cfg up session domains row).2.feed f ∈
        c.settle cfg up session domains row s.table := by
      rw [show c.settle cfg up session domains row s.table = _ from if_pos hd]
      exact List.mem_map.mpr ⟨f, hf, if_pos hid⟩
    obtain ⟨hatt, hsucc⟩ := hforward f hf _ hmem rfl
    refine ⟨?_, (succeeded_le_result hd f).mp hsucc⟩
    rcases (attempted_le_result hd f).mp hatt with hsame | hle
    · exact hsame
    · obtain ⟨hnow, hrow⟩ := hseq f hf hid
      have hsame : row.attempted = c.now := le_antisymm (hrow.trans hle) hnow
      exact hsame
  · intro horder f hf g hg hid
    rcases mem_settle hg with hg | ⟨hd, f', hf', hid', rfl⟩
    · rw [s.eq_of_id hf hg hid]
      exact ⟨le_refl _, le_refl _⟩
    · obtain rfl : f = f' := s.eq_of_id hf hf' hid
      obtain ⟨hatt, hsucc⟩ := horder hd f hf hid'
      exact ⟨(attempted_le_result hd f).mpr (.inl hatt), (succeeded_le_result hd f).mpr hsucc⟩

/-- A result carries no later attempt than that of its claim. -/
theorem settle_attempted_le {table : List Feed} {g : Feed} {bound : WithBot Datetime}
    (hg : g ∈ c.settle cfg up session domains row table)
    (htable : ∀ f ∈ table, f.attempted ≤ bound) (hc : c.now ≤ bound) : g.attempted ≤ bound := by
  rcases mem_settle hg with hg | ⟨hd, f, hf, -, rfl⟩
  · exact htable g hg
  · obtain ⟨o, -, hattempt, -⟩ := processing_clocks hd
    rcases Feed.attempted_writeBack row (c.run cfg up session domains row).2.feed f with h | h
    · exact h.trans_le (htable f hf)
    · exact (h.trans (congrArg moment hattempt)).trans_le hc

/-- Every row of a step has been there before. -/
theorem Step.row_of (h : s.Step cfg a s') {g : Feed} (hg : g ∈ s'.table) :
    ∃ f ∈ s.table, f.id = g.id := by
  cases h with
  | claim _ _ htable _ _ =>
      obtain ⟨f, hf, hid, -⟩ := mem_claimDueFeeds htable hg
      exact ⟨f, hf, hid⟩
  | finish _ _ _ htable _ _ =>
      rcases mem_settle (htable ▸ hg) with hg | ⟨-, f, hf, -, rfl⟩
      · exact ⟨g, hg, rfl⟩
      · exact ⟨f, hf, rfl⟩
  | load _ _ _ _ htable _ _ => exact ⟨g, htable ▸ hg, rfl⟩
  | abandon _ htable _ _ => exact ⟨g, htable ▸ hg, rfl⟩
  | crash _ htable _ _ => exact ⟨g, htable ▸ hg, rfl⟩

namespace Sequenced

/-- A step sets no clock back exactly when it is in order. -/
theorem forward_iff (hseq : s.Sequenced) (h : s.Step cfg a s') :
    Forward s.table s'.table ↔ s.InOrder cfg a := by
  cases h with
  | @claim now worker scan ids _ hclock hscan htable hheld hnow =>
      refine ⟨fun _ ↦ trivial, fun _ f hf g hg hid ↦ ?_⟩
      obtain ⟨f', hf', hid', ⟨-, hgf⟩ | ⟨-, leaseUntil, -, hgf⟩⟩ := mem_claimDueFeeds htable hg
      · rw [hgf, s.eq_of_id hf hf' (hid.trans hid'.symm)]
        exact ⟨le_refl _, le_refl _⟩
      · rw [hgf, s.eq_of_id hf hf' (hid.trans hid'.symm)]
        refine ⟨?_, le_refl _⟩
        exact (hseq.attempted f' hf').trans (WithBot.coe_le_coe.mpr hclock)
  | @finish now c row up session domains _ hclock hc hrow htable hheld hnow =>
      rw [htable, forward_settle_iff s fun f hf hid ↦ (hseq.held c hc f hf hid).2 row hrow]
      constructor
      · intro h row' hrow'
        rw [hrow] at hrow'
        cases hrow'
        exact h
      · exact fun h ↦ h row hrow
  | load _ _ _ _ htable _ _ =>
      rw [htable]
      exact ⟨fun _ ↦ trivial, fun _ ↦ s.forward_refl⟩
  | abandon _ htable _ _ =>
      rw [htable]
      exact ⟨fun _ ↦ trivial, fun _ ↦ s.forward_refl⟩
  | crash _ htable _ _ =>
      rw [htable]
      exact ⟨fun _ ↦ trivial, fun _ ↦ s.forward_refl⟩

/-- What is known of a claim stays true as long as no clock goes back. -/
theorem held_forward (hseq : s.Sequenced) (h : s.Step cfg a s')
    (hforward : Forward s.table s'.table) (hc : c ∈ s.held) {g : Feed} (hg : g ∈ s'.table)
    (hid : g.id = c.feedId) :
    c.now ≤ g.attempted ∧
      ∀ row, c.loaded = some row → c.now ≤ row.attempted ∧ row.attempted ≤ g.attempted := by
  obtain ⟨f, hf, hfg⟩ := h.row_of hg
  obtain ⟨hnow, hrow⟩ := hseq.held c hc f hf (hfg.trans hid)
  have hle := (hforward f hf g hg hfg).1
  exact ⟨hnow.trans hle, fun row hr ↦ ⟨(hrow row hr).1, (hrow row hr).2.trans hle⟩⟩

/-- A step that begins and loads nothing. -/
theorem of_kept (hseq : s.Sequenced) (h : s.Step cfg a s') (hforward : Forward s.table s'.table)
    (hclock : s.clock ≤ s'.clock) (htable : ∀ g ∈ s'.table, g.attempted ≤ s'.clock)
    (hheld : ∀ d ∈ s'.held, d ∈ s.held) : s'.Sequenced where
  attempted := htable
  claimed d hd := (hseq.claimed d (hheld d hd)).trans hclock
  held d hd _ hg hid := hseq.held_forward h hforward (hheld d hd) hg hid

theorem step (hseq : s.Sequenced) (h : s.Step cfg a s') (hforward : Forward s.table s'.table) :
    s'.Sequenced := by
  have hold := fun c (hc : c ∈ s.held) g (hg : g ∈ s'.table) ↦
    hseq.held_forward h hforward hc hg
  have hkept := hseq.of_kept h hforward
  cases h with
  | @claim now worker scan ids _ hclock hscan htable hheld hnow =>
      refine ⟨fun g hg ↦ ?_, fun d hd ↦ ?_, fun d hd g hg hid ↦ ?_⟩
      · rw [hnow]
        obtain ⟨f, hf, -, ⟨-, rfl⟩ | ⟨-, leaseUntil, -, rfl⟩⟩ := mem_claimDueFeeds htable hg
        · exact (hseq.attempted g hf).trans (WithBot.coe_le_coe.mpr hclock)
        · exact le_refl (now : WithBot Datetime)
      · rw [hheld] at hd
        rw [hnow]
        rcases List.mem_append.mp hd with hd | hd
        · exact (hseq.claimed d hd).trans hclock
        · obtain ⟨id, -, rfl⟩ := List.mem_map.mp hd
          exact le_refl now
      · rw [hheld] at hd
        rcases List.mem_append.mp hd with hd | hd
        · exact hold d hd g hg hid
        · obtain ⟨id, hmem, rfl⟩ := List.mem_map.mp hd
          refine ⟨?_, fun row hrow ↦ nomatch hrow⟩
          obtain ⟨f, -, -, ⟨hnot, -⟩ | ⟨-, leaseUntil, -, rfl⟩⟩ := mem_claimDueFeeds htable hg
          · exact absurd (hid ▸ hmem) hnot
          · exact le_refl (now : WithBot Datetime)
  | @load now c row _ hclock hc hrow hid htable hheld hnow =>
      have hmem : ∀ d ∈ s'.held, d ∈ s.held ∨ d = { c with loaded := some row } := by
        intro d hd
        rw [hheld] at hd
        obtain ⟨d', hd', rfl⟩ := List.mem_map.mp hd
        split
        · exact .inr rfl
        · exact .inl hd'
      refine ⟨fun g hg ↦ ?_, fun d hd ↦ ?_, fun d hd g hg hgid ↦ ?_⟩
      · rw [hnow]
        exact (hseq.attempted g (htable ▸ hg)).trans (WithBot.coe_le_coe.mpr hclock)
      · rw [hnow]
        rcases hmem d hd with hd | rfl
        · exact (hseq.claimed d hd).trans hclock
        · exact (hseq.claimed c hc).trans hclock
      · rcases hmem d hd with hd | rfl
        · exact hold d hd g hg hgid
        · obtain ⟨hcnow, -⟩ := hold c hc g hg hgid
          refine ⟨hcnow, fun row' hrow' ↦ ?_⟩
          cases hrow'
          rw [s.eq_of_id (htable ▸ hg) hrow (hgid.trans hid.symm)] at hcnow ⊢
          exact ⟨hcnow, le_refl _⟩
  | @finish now c row up session domains _ hclock hc hrow htable hheld hnow =>
      refine hkept (hnow ▸ hclock) (fun g hg ↦ ?_) fun d hd ↦ List.mem_of_mem_erase (hheld ▸ hd)
      have hle : (s.clock : WithBot Datetime) ≤ s'.clock := WithBot.coe_le_coe.mpr (hnow ▸ hclock)
      have hcnow : (c.now : WithBot Datetime) ≤ s.clock :=
        WithBot.coe_le_coe.mpr (hseq.claimed c hc)
      rw [htable] at hg
      exact (settle_attempted_le hg (fun f hf ↦ hseq.attempted f hf) hcnow).trans hle
  | @abandon now c _ hclock htable hheld hnow =>
      refine hkept (hnow ▸ hclock) (fun g hg ↦ ?_) fun d hd ↦ List.mem_of_mem_erase (hheld ▸ hd)
      rw [hnow]
      exact (hseq.attempted g (htable ▸ hg)).trans (WithBot.coe_le_coe.mpr hclock)
  | @crash now worker _ hclock htable hheld hnow =>
      refine hkept (hnow ▸ hclock) (fun g hg ↦ ?_) fun d hd ↦ List.mem_of_mem_filter (hheld ▸ hd)
      rw [hnow]
      exact (hseq.attempted g (htable ▸ hg)).trans (WithBot.coe_le_coe.mpr hclock)

end Sequenced

theorem forward_trans {t : Cluster}
    (h₁ : Forward t.table s.table) (h₂ : Forward s.table s'.table)
    (hrow : ∀ g ∈ s'.table, ∃ f ∈ s.table, f.id = g.id) : Forward t.table s'.table := by
  intro e he g hg hid
  obtain ⟨f, hf, hfg⟩ := hrow g hg
  have hef := h₁ e he f hf (hid.trans hfg.symm)
  have hfg := h₂ f hf g hg hfg
  exact ⟨hef.1.trans hfg.1, hef.2.trans hfg.2⟩

variable {s₀ : Cluster} {as : List Action}

theorem Sequenced.start (hidle : s₀.held = []) (hclock : ∀ f ∈ s₀.table, f.attempted ≤ s₀.clock) :
    s₀.Sequenced where
  attempted := hclock
  claimed c hc := by
    rw [hidle] at hc
    cases hc
  held c hc := by
    rw [hidle] at hc
    cases hc

/-- In a run whose steps set no clock back, no clock goes back from one state to a later one. -/
theorem run_forward (h : Run (ForwardStep cfg) s₀ as s) : Forward s₀.table s.table := by
  induction h with
  | nil => exact s₀.forward_refl
  | snoc _ hs ih => exact forward_trans ih hs.1 fun _ hg ↦ hs.2.row_of hg

/-- The clocks go forward in a run exactly when its results are committed in order. -/
theorem clocks_forward_iff (hidle : s₀.held = [])
    (hclock : ∀ f ∈ s₀.table, f.attempted ≤ s₀.clock) :
    Run (ForwardStep cfg) s₀ as s ↔ Run (InOrderStep cfg) s₀ as s := by
  have hstart := Sequenced.start hidle hclock
  constructor
  · intro h
    have hrun : s.Sequenced ∧ Run (InOrderStep cfg) s₀ as s := by
      induction h with
      | nil => exact ⟨hstart, .nil⟩
      | snoc _ hs ih =>
          obtain ⟨hseq, hrun⟩ := ih
          exact ⟨hseq.step hs.2 hs.1, hrun.snoc ⟨(hseq.forward_iff hs.2).mp hs.1, hs.2⟩⟩
    exact hrun.2
  · intro h
    have hrun : s.Sequenced ∧ Run (ForwardStep cfg) s₀ as s := by
      induction h with
      | nil => exact ⟨hstart, .nil⟩
      | snoc _ hs ih =>
          obtain ⟨hseq, hrun⟩ := ih
          have hforward := (hseq.forward_iff hs.2).mpr hs.1
          exact ⟨hseq.step hs.2 hforward, hrun.snoc ⟨hforward, hs.2⟩⟩
    exact hrun.2

/-! ### A worker who is late -/

/-- The first feed, claimed again when its lease ends. -/
def reclaimed : Feed := (leased (fresh 1)).lease expiry ⟨63082281780000000, by decide, by decide⟩

/-- The first claim of the feed. -/
def firstClaim (loaded : Option Feed) : Claim := ⟨1, 1, .year2000, loaded⟩

def unclaimed : Cluster := ⟨[fresh 1], by decide, [], .year2000⟩

def claimed (loaded : Option Feed) : Cluster :=
  ⟨[leased (fresh 1)], by decide, [firstClaim loaded], .year2000⟩

/-- The first worker is still fetching when the second one claims the feed. -/
def overtaken (loaded : Option Feed) : Cluster :=
  ⟨[reclaimed], by decide, [firstClaim loaded, ⟨2, 1, expiry, none⟩], expiry⟩

theorem claim_first : unclaimed.Step {} (.claim .year2000 1 [fresh 1] [1]) (claimed none) :=
  .claim (le_refl _) (List.Subperm.refl _) (by decide +kernel) rfl rfl

theorem claim_second (loaded : Option Feed) :
    (claimed loaded).Step {} (.claim expiry 2 [leased (fresh 1)] [1]) (overtaken loaded) := by
  have hclock : Datetime.year2000 ≤ expiry := by decide
  have hclaim : claimDueFeeds expiry 8 90 7 [leased (fresh 1)] [leased (fresh 1)] =
      .ok ([1], [reclaimed]) := by decide +kernel
  exact .claim hclock (List.Subperm.refl _) hclaim rfl rfl

/-- A worker that has loaded the row before it was claimed again reports a timeout. -/
theorem early_load_forward : ∃ s, Run (ForwardStep {}) unclaimed
    [.claim .year2000 1 [fresh 1] [1], .load .year2000 (firstClaim none) (leased (fresh 1)),
      .claim expiry 2 [leased (fresh 1)] [1],
      .finish expiry (firstClaim (some (leased (fresh 1)))) .silent (.start [] 1) []] s := by
  have hload : (claimed none).Step {} (.load .year2000 (firstClaim none) (leased (fresh 1)))
      (claimed (some (leased (fresh 1)))) :=
    .load (le_refl _) (List.mem_singleton.mpr rfl) (List.mem_singleton.mpr rfl) rfl rfl
      (by decide +kernel) rfl
  have hfinish : (overtaken (some (leased (fresh 1)))).Step {}
      (.finish expiry (firstClaim (some (leased (fresh 1)))) .silent (.start [] 1) [])
      ⟨(firstClaim (some (leased (fresh 1)))).settle {} .silent (.start [] 1) [] (leased (fresh 1))
        [reclaimed], by decide +kernel, [⟨2, 1, expiry, none⟩], expiry⟩ :=
    .finish (le_refl _) List.mem_cons_self rfl rfl (by decide +kernel) rfl
  have horder : (overtaken (some (leased (fresh 1)))).InOrder {}
      (.finish expiry (firstClaim (some (leased (fresh 1)))) .silent (.start [] 1) []) := by
    rintro row hrow - f - -
    cases hrow
    refine ⟨rfl, fun ⟨o, ho, hs⟩ ↦ ?_⟩
    have hfailed : processingOutcome .silent {} .year2000
        (Tracked.loaded (.start [] 1) [] ⟨leased (fresh 1), []⟩) = some (.failed .timeout) := by
      decide +kernel
    cases hfailed.symm.trans ho
    cases hs
  have h₁ : InOrderStep {} unclaimed (.claim .year2000 1 [fresh 1] [1]) (claimed none) :=
    ⟨trivial, claim_first⟩
  have h₂ : InOrderStep {} (claimed none)
      (.load .year2000 (firstClaim none) (leased (fresh 1))) (claimed (some (leased (fresh 1)))) :=
    ⟨trivial, hload⟩
  have h₃ : InOrderStep {} (claimed (some (leased (fresh 1))))
      (.claim expiry 2 [leased (fresh 1)] [1]) (overtaken (some (leased (fresh 1)))) :=
    ⟨trivial, claim_second _⟩
  have hrun := (((Run.single h₁).snoc h₂).snoc h₃).snoc ⟨horder, hfinish⟩
  exact ⟨_, (clocks_forward_iff rfl (by decide)).mpr hrun⟩

/-- One that loads it after that sets the clock back to the time of its own claim. -/
theorem late_load_backward : ∃ t s, Run (Step {}) unclaimed
    [.claim .year2000 1 [fresh 1] [1], .claim expiry 2 [leased (fresh 1)] [1],
      .load expiry (firstClaim none) reclaimed] t ∧
    t.Step {} (.finish expiry (firstClaim (some reclaimed)) .silent (.start [] 1) []) s ∧
    ¬Forward t.table s.table := by
  have hload : (overtaken none).Step {} (.load expiry (firstClaim none) reclaimed)
      (overtaken (some reclaimed)) :=
    .load (le_refl _) List.mem_cons_self (List.mem_singleton.mpr rfl) rfl rfl (by decide +kernel)
      rfl
  refine ⟨_, ⟨(firstClaim (some reclaimed)).settle {} .silent (.start [] 1) [] reclaimed
    [reclaimed], by decide +kernel, [⟨2, 1, expiry, none⟩], expiry⟩,
    ((Run.single claim_first).snoc (claim_second none)).snoc hload,
    .finish (le_refl _) List.mem_cons_self rfl rfl (by decide +kernel) rfl, fun hforward ↦ ?_⟩
  have hlate : ∃ g ∈ (firstClaim (some reclaimed)).settle {} .silent (.start [] 1) [] reclaimed
      [reclaimed], g.id = 1 ∧ g.lastAttemptAt = some .year2000 := by decide +kernel
  obtain ⟨g, hg, hid, hattempt⟩ := hlate
  have hle := (hforward reclaimed (List.mem_singleton.mpr rfl) g hg hid.symm).1
  rw [show g.attempted = Datetime.year2000 from congrArg moment hattempt] at hle
  exact absurd (WithBot.coe_le_coe.mp hle) (by decide)

end Cluster

end FeedgateFetcher
