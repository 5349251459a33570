import Mathlib.Algebra.Order.Monoid.Defs
import Mathlib.Algebra.Order.Monoid.Unbundled.Pow
import Mathlib.Data.List.Nodup
import Mathlib.Data.List.Perm.Subperm
import FeedgateFetcher.Logic.Transition

/-!
# Work pools

Jobs that wait in line for a fixed number of permits.  A job is started as soon as
it is the first in line and a permit is free: time does not pass before that.  When
no job runs for longer than a limit `d`, the `k`-th job of a pool with `c` permits is
started within `k / c` limits, and all of `n` jobs are finished within `⌈n / c⌉`.

The instants are those of an ordered additive monoid; what a job does and returns is
left open.
-/

universe u v w

namespace FeedgateFetcher.Logic

variable {ι : Type u} {τ : Type v} {ω : Type w}

/-- A job that is running: how many were started before it, and when it was started. -/
structure Task (ι : Type u) (τ : Type v) where
  job : ι
  rank : ℕ
  since : τ
deriving DecidableEq

/-- The jobs of a pool by how far they have come, the waiting ones in line, and the clock. -/
@[ext]
structure WorkPool (ι : Type u) (τ : Type v) (ω : Type w) where
  waiting : List ι
  running : List (Task ι τ)
  finished : List (ι × ω)
  clock : τ

namespace WorkPool

/-- What happens in a pool. -/
inductive Event (ι : Type u) (τ : Type v) (ω : Type w) where
  | start (job : ι)
  | finish (job : ι) (outcome : ω)
  /-- Time passes. -/
  | pass (clock : τ)

/-- The event starts or finishes a job. -/
def Event.isWork : Event ι τ ω → Bool
  | .start _ => true
  | .finish _ _ => true
  | .pass _ => false

/-- A pool whose jobs all wait. -/
def opened (jobs : List ι) (clock : τ) : WorkPool ι τ ω := ⟨jobs, [], [], clock⟩

/-- The number of jobs that have been started. -/
def started (s : WorkPool ι τ ω) : ℕ := s.finished.length + s.running.length

/-- The jobs that have not finished. -/
def unfinished (s : WorkPool ι τ ω) : List ι := s.running.map Task.job ++ s.waiting

/-- Time may pass until `t`: nobody waits for a permit that is free, and no running job
exceeds the limit. -/
structure MayPass [LE τ] [Add τ] (permits : ℕ) (limit : τ) (s : WorkPool ι τ ω) (t : τ) :
    Prop where
  le : s.clock ≤ t
  busy : s.waiting = [] ∨ permits ≤ s.running.length
  within : ∀ task ∈ s.running, t ≤ task.since + limit

/-- The first job in line is started. -/
def start (s : WorkPool ι τ ω) (job : ι) (rest : List ι) : WorkPool ι τ ω :=
  { s with waiting := rest, running := s.running ++ [⟨job, s.started, s.clock⟩] }

/-- No job gets lost or is started twice, the jobs are started in their order, and no more run
than there are permits. -/
structure Conserves (permits : ℕ) (jobs : List ι) (s : WorkPool ι τ ω) : Prop where
  perm : (s.finished.map Prod.fst ++ s.unfinished).Perm jobs
  inLine : s.waiting <:+ jobs
  bounded : s.running.length ≤ permits

theorem conserves_opened (permits : ℕ) (jobs : List ι) (clock : τ) :
    (opened jobs clock : WorkPool ι τ ω).Conserves permits jobs where
  perm := List.Perm.refl jobs
  inLine := List.suffix_refl jobs
  bounded := Nat.zero_le permits

/-- Every job is finished, running or waiting. -/
theorem Conserves.length_eq {s : WorkPool ι τ ω} {permits : ℕ} {jobs : List ι}
    (h : s.Conserves permits jobs) : s.started + s.waiting.length = jobs.length := by
  have hlength := h.perm.length_eq
  rw [unfinished, List.length_append, List.length_append, List.length_map, List.length_map]
    at hlength
  rw [started]
  omega

theorem started_start (s : WorkPool ι τ ω) (job : ι) (rest : List ι) :
    (s.start job rest).started = s.started + 1 := by
  rw [started, start, List.length_append]
  exact (Nat.add_assoc _ _ _).symm

/-- Among as many running jobs as there are permits one was started long ago. -/
theorem exists_rank_le {tasks : List (Task ι τ)} {n permits : ℕ}
    (hn : (tasks.map Task.rank).Nodup) (hlt : ∀ task ∈ tasks, task.rank < n)
    (hpos : 0 < permits) (hlength : permits ≤ tasks.length) :
    ∃ task ∈ tasks, task.rank + permits ≤ n := by
  by_contra hlate
  push Not at hlate
  have hsub : tasks.map Task.rank ⊆ List.range' (n + 1 - permits) (permits - 1) := by
    intro rank hrank
    obtain ⟨task, htask, rfl⟩ := List.mem_map.mp hrank
    have h₁ := hlt task htask
    have h₂ := hlate task htask
    rw [List.mem_range'_1]
    omega
  have hle := (List.subperm_of_subset hn hsub).length_le
  rw [List.length_map, List.length_range'] at hle
  omega

section

variable [AddCommMonoid τ] [PartialOrder τ]

/-- The invariant of a pool that was opened at `begun`: the `k`-th job was started within `k / c`
limits. -/
structure Paced (permits : ℕ) (limit begun : τ) (s : WorkPool ι τ ω) : Prop where
  ranks : (s.running.map Task.rank).Nodup
  rank_lt : ∀ task ∈ s.running, task.rank < s.started
  since_le : ∀ task ∈ s.running, task.since ≤ begun + (task.rank / permits) • limit
  within : ∀ task ∈ s.running, s.clock ≤ task.since + limit
  waiting : s.waiting ≠ [] → s.clock ≤ begun + (s.started / permits) • limit

theorem paced_opened (permits : ℕ) (limit : τ) (jobs : List ι) (begun : τ) :
    (opened jobs begun : WorkPool ι τ ω).Paced permits limit begun where
  ranks := List.nodup_nil
  rank_lt := nofun
  since_le := nofun
  within := nofun
  waiting _ := by
    change begun ≤ begun + (0 / permits) • limit
    rw [Nat.zero_div, zero_nsmul, add_zero]

variable [IsOrderedAddMonoid τ] {limit begun : τ} {permits : ℕ} {s : WorkPool ι τ ω}

theorem Paced.pass (hlimit : 0 ≤ limit) (hpos : 0 < permits) {t : τ}
    (h : s.Paced permits limit begun) (hpass : s.MayPass permits limit t) :
    { s with clock := t }.Paced permits limit begun where
  ranks := h.ranks
  rank_lt := h.rank_lt
  since_le := h.since_le
  within := hpass.within
  waiting hwaiting := by
    -- the earliest of the running jobs has to end first
    obtain ⟨task, htask, hrank⟩ :=
      exists_rank_le h.ranks h.rank_lt hpos (hpass.busy.resolve_left hwaiting)
    have hdiv : task.rank / permits + 1 ≤ s.started / permits := by
      rw [← Nat.add_div_right _ hpos]
      exact Nat.div_le_div_right hrank
    calc t ≤ task.since + limit := hpass.within task htask
      _ ≤ begun + (task.rank / permits) • limit + limit := by gcongr; exact h.since_le task htask
      _ = begun + (task.rank / permits + 1) • limit := by rw [add_assoc, succ_nsmul]
      _ ≤ begun + (s.started / permits) • limit := by gcongr

/-- As long as one of `n` jobs is unfinished, not more than `⌈n / c⌉` limits have passed. -/
theorem Paced.clock_le (hlimit : 0 ≤ limit) (hpos : 0 < permits) {n : ℕ}
    (h : s.Paced permits limit begun) (hn : s.started + s.waiting.length = n)
    (hunfinished : s.unfinished ≠ []) :
    s.clock ≤ begun + ((n + permits - 1) / permits) • limit := by
  rcases hrunning : s.running with _ | ⟨task, tasks⟩
  · have hwaiting : s.waiting ≠ [] := by
      rw [unfinished, hrunning] at hunfinished
      exact hunfinished
    have hlength := List.length_pos_iff.mpr hwaiting
    have hdiv : s.started / permits ≤ (n + permits - 1) / permits :=
      Nat.div_le_div_right (by omega)
    calc s.clock ≤ begun + (s.started / permits) • limit := h.waiting hwaiting
      _ ≤ begun + ((n + permits - 1) / permits) • limit := by gcongr
  · have htask : task ∈ s.running := hrunning ▸ List.mem_cons_self
    have hlt := h.rank_lt task htask
    have hdiv : task.rank / permits + 1 ≤ (n + permits - 1) / permits := by
      rw [← Nat.add_div_right _ hpos]
      exact Nat.div_le_div_right (by omega)
    calc s.clock ≤ task.since + limit := h.within task htask
      _ ≤ begun + (task.rank / permits) • limit + limit := by gcongr; exact h.since_le task htask
      _ = begun + (task.rank / permits + 1) • limit := by rw [add_assoc, succ_nsmul]
      _ ≤ begun + ((n + permits - 1) / permits) • limit := by gcongr

end

/-! ## Runs -/

section

variable [DecidableEq ι] [DecidableEq τ]

/-- A running job ends. -/
def finish (s : WorkPool ι τ ω) (task : Task ι τ) (outcome : ω) : WorkPool ι τ ω :=
  { s with
    running := s.running.erase task
    finished := s.finished ++ [(task.job, outcome)] }

/-- The steps of a pool. -/
inductive Step [LE τ] [Add τ] (permits : ℕ) (limit : τ) (s : WorkPool ι τ ω) :
    Event ι τ ω → WorkPool ι τ ω → Prop
  | start {job : ι} {rest : List ι} (hwaiting : s.waiting = job :: rest)
    (hfree : s.running.length < permits) : Step permits limit s (.start job) (s.start job rest)
  | finish {task : Task ι τ} (hrunning : task ∈ s.running) (outcome : ω) :
    Step permits limit s (.finish task.job outcome) (s.finish task outcome)
  | pass {t : τ} (hpass : s.MayPass permits limit t) :
    Step permits limit s (.pass t) { s with clock := t }

variable {s s' : WorkPool ι τ ω} {e : Event ι τ ω} {es : List (Event ι τ ω)} {permits : ℕ}
  {jobs : List ι}

theorem started_finish {task : Task ι τ} (h : task ∈ s.running) (outcome : ω) :
    (s.finish task outcome).started = s.started := by
  have hpos := List.length_pos_of_mem h
  rw [started, started, finish, List.length_append, List.length_erase_of_mem h,
    List.length_singleton]
  omega

section

variable [LE τ] [Add τ] {limit : τ}

theorem Conserves.step (h : s.Conserves permits jobs) (hs : s.Step permits limit e s') :
    s'.Conserves permits jobs := by
  cases hs with
  | @start job rest hwaiting hfree =>
      refine ⟨?_, ?_, ?_⟩
      · have hperm := h.perm
        rw [unfinished, hwaiting] at hperm
        rw [unfinished, WorkPool.start, List.map_append, List.append_assoc]
        exact hperm
      · have hline := h.inLine
        rw [hwaiting] at hline
        exact (List.suffix_cons job rest).trans hline
      · rw [WorkPool.start, List.length_append]
        exact hfree
  | @finish task hrunning outcome =>
      refine ⟨?_, h.inLine, ?_⟩
      · refine List.Perm.trans ?_ h.perm
        rw [unfinished, unfinished, WorkPool.finish, List.map_append, List.append_assoc]
        refine List.Perm.append_left _ ?_
        have hrest : (task :: s.running.erase task).Perm s.running :=
          (List.perm_cons_erase hrunning).symm
        exact (hrest.map Task.job).append_right s.waiting
      · exact (List.length_erase_le).trans h.bounded
  | pass _ => exact ⟨h.perm, h.inLine, h.bounded⟩

theorem Conserves.run (h : s.Conserves permits jobs) (hr : Run (Step permits limit) s es s') :
    s'.Conserves permits jobs :=
  hr.invariant (P := Conserves permits jobs) (fun _ _ _ ht hs ↦ ht.step hs) h

/-- A pool with a permit is not stuck: as long as a job is unfinished, one can be started or
finished. -/
theorem exists_step (limit : τ) (outcome : ω) (hpermits : 0 < permits) (h : s.unfinished ≠ []) :
    ∃ e s', s.Step permits limit e s' ∧ e.isWork = true := by
  rcases hrunning : s.running with _ | ⟨task, tasks⟩
  · rcases hwaiting : s.waiting with _ | ⟨job, rest⟩
    · rw [unfinished, hrunning, hwaiting] at h
      exact absurd rfl h
    · refine ⟨_, _, .start hwaiting ?_, rfl⟩
      rw [hrunning]
      exact hpermits
  · exact ⟨_, _, .finish (hrunning ▸ List.mem_cons_self : task ∈ s.running) outcome, rfl⟩

/-- Every job is started once and finished once. -/
theorem countP_isWork (hr : Run (Step permits limit) s es s') :
    es.countP Event.isWork + (s.started + s.finished.length) =
      s'.started + s'.finished.length := by
  induction hr with
  | nil => exact Nat.zero_add _
  | @snoc es t u e _ hs ih =>
      rw [List.countP_append]
      cases hs with
      | start _ _ =>
          rw [started_start]
          change _ + 1 + _ = _ + 1 + t.finished.length
          omega
      | finish hrunning outcome =>
          rw [started_finish hrunning]
          change _ + 1 + _ = _ + (t.finished ++ [_]).length
          rw [List.length_append, List.length_singleton]
          omega
      | pass _ => exact ih

end

section

variable [AddCommMonoid τ] [PartialOrder τ] [IsOrderedAddMonoid τ] {limit begun : τ}

theorem Paced.step (hlimit : 0 ≤ limit) (hpos : 0 < permits) (h : s.Paced permits limit begun)
    (hs : s.Step permits limit e s') : s'.Paced permits limit begun := by
  cases hs with
  | @start job rest hwaiting hfree =>
      have hclock := h.waiting (hwaiting ▸ List.cons_ne_nil job rest)
      have hnew : ∀ {P : Task ι τ → Prop}, (∀ task ∈ s.running, P task) →
          P ⟨job, s.started, s.clock⟩ → ∀ task ∈ (s.start job rest).running, P task := by
        intro P hold hlast task htask
        rcases List.mem_append.mp htask with htask | htask
        · exact hold task htask
        · rw [List.mem_singleton.mp htask]
          exact hlast
      refine ⟨?_, ?_, ?_, ?_, ?_⟩
      · rw [WorkPool.start, List.map_append]
        refine List.nodup_append.mpr ⟨h.ranks, List.nodup_singleton _, ?_⟩
        rintro rank hrank _ hlast rfl
        obtain ⟨task, htask, rfl⟩ := List.mem_map.mp hrank
        have hlt := h.rank_lt task htask
        rw [List.mem_singleton.mp hlast] at hlt
        exact absurd hlt (lt_irrefl _)
      · rw [started_start]
        exact hnew (fun task htask ↦ (h.rank_lt task htask).trans (Nat.lt_succ_self _))
          (Nat.lt_succ_self _)
      · exact hnew h.since_le hclock
      · exact hnew h.within (le_add_of_nonneg_right hlimit)
      · intro _
        rw [started_start]
        have hdiv : s.started / permits ≤ (s.started + 1) / permits :=
          Nat.div_le_div_right (Nat.le_succ _)
        calc s.clock ≤ begun + (s.started / permits) • limit := hclock
          _ ≤ begun + ((s.started + 1) / permits) • limit := by gcongr
  | @finish task hrunning outcome =>
      have hold : ∀ t ∈ (s.finish task outcome).running, t ∈ s.running := fun _ ht ↦
        List.mem_of_mem_erase ht
      refine ⟨?_, ?_, fun t ht ↦ h.since_le t (hold t ht), fun t ht ↦ h.within t (hold t ht), ?_⟩
      · exact h.ranks.sublist (List.erase_sublist.map _)
      · rw [started_finish hrunning]
        exact fun t ht ↦ h.rank_lt t (hold t ht)
      · rw [started_finish hrunning]
        exact h.waiting
  | pass hpass => exact h.pass hlimit hpos hpass

theorem Paced.run (hlimit : 0 ≤ limit) (hpos : 0 < permits) (h : s.Paced permits limit begun)
    (hr : Run (Step permits limit) s es s') : s'.Paced permits limit begun :=
  hr.invariant (P := Paced permits limit begun) (fun _ _ _ ht hs ↦ ht.step hlimit hpos hs) h

end

end

end WorkPool

end FeedgateFetcher.Logic
