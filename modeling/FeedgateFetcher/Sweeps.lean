import FeedgateFetcher.Fetcher.Retention

/-!
# Sweeps in batches

Repeated sweeps with one cutoff, each of which ranks the thinned table anew and
takes whatever victims the server meets first, end where one sweep without
batches ends.
-/

namespace FeedgateFetcher

open Python Logic Table

/-- A call of `sweep` on an otherwise unchanged table, with the order in which the server meets
the victims and the number that it returns. -/
def SweepCall (cutoff : Datetime) (minPerFeed batchSize : Int) (table : List Entry)
    (call : List Entry × Nat) (table' : List Entry) : Prop :=
  call.1.Perm (victims cutoff minPerFeed table) ∧
    sweep cutoff minPerFeed batchSize call.1 table = (call.2, table')

instance (cutoff : Datetime) (minPerFeed batchSize : Int) (table : List Entry)
    (call : List Entry × Nat) (table' : List Entry) :
    Decidable (SweepCall cutoff minPerFeed batchSize table call table') :=
  inferInstanceAs (Decidable (_ ∧ _))

section

variable {cutoff : Datetime} {minPerFeed batchSize : Int} {table table' : List Entry}
  {call : List Entry × Nat} {calls : List (List Entry × Nat)}

theorem SweepCall.thins (h : SweepCall cutoff minPerFeed batchSize table call table')
    (hid : Keyed Entry.id table) (hN : 0 ≤ minPerFeed) (hB : 0 < batchSize) :
    (retentionRule cutoff minPerFeed).Thins batchSize.toNat table call.1 table' := by
  have hthins := (sweep_batched hid hN hB h.1).1
  rwa [h.2] at hthins

/-- Repeated calls are a run of batches. -/
theorem sweeps_thin (hid : Keyed Entry.id table) (hN : 0 ≤ minPerFeed) (hB : 0 < batchSize)
    (h : Run (SweepCall cutoff minPerFeed batchSize) table calls table') :
    Keyed Entry.id table' ∧
      Run ((retentionRule cutoff minPerFeed).Thins batchSize.toNat) table (calls.map Prod.fst)
        table' := by
  induction h with
  | nil => exact ⟨hid, .nil⟩
  | snoc _ hcall ih =>
      obtain ⟨hid', hrun⟩ := ih
      have hthins := hcall.thins hid' hN hB
      refine ⟨?_, ?_⟩
      · rw [hthins.2]
        exact hid'.sublist List.filter_sublist
      · rw [List.map_append, List.map_singleton]
        exact hrun.snoc hthins

/-- The victims that remain are the rows outside the keep set of the beginning. -/
theorem surplus_eq_of_kept_eq {table₀ : List Entry}
    (h : (retentionRule cutoff minPerFeed).kept table =
      (retentionRule cutoff minPerFeed).kept table₀) :
    (retentionRule cutoff minPerFeed).surplus table =
      table.filter fun e ↦ e ∉ (retentionRule cutoff minPerFeed).kept table₀ := by
  refine List.filter_congr fun e he ↦ decide_eq_decide.mpr (not_congr ?_)
  rw [← h, Retention.mem_kept]
  exact ⟨fun hk ↦ ⟨he, hk⟩, fun hk ↦ hk.2⟩

/-- One sweep without batches leaves the rows inside the time window together with the first rows
of every feed, and a second one finds nothing to do.  Repeated sweeps with batches delete none of
these rows, delete a full batch of the others as long as there is one, and end in the same
table. -/
theorem sweep_keeps_union (cutoff : Datetime) (minPerFeed : Int) (table : List Entry)
    (hN : 0 ≤ minPerFeed) (hid : Keyed Entry.id table) :
    (∀ scan : List Entry,
      (sweep cutoff minPerFeed 0 scan table).2 = (retentionRule cutoff minPerFeed).kept table ∧
      sweep cutoff minPerFeed 0 scan ((retentionRule cutoff minPerFeed).kept table) =
        (0, (retentionRule cutoff minPerFeed).kept table)) ∧
    ∀ (batchSize : Int) (calls : List (List Entry × Nat)) (table' : List Entry), 0 < batchSize →
      Run (SweepCall cutoff minPerFeed batchSize) table calls table' →
        (∀ e ∈ (retentionRule cutoff minPerFeed).kept table, e ∈ table') ∧
        (∃ call table'', SweepCall cutoff minPerFeed batchSize table' call table'') ∧
        (∀ call table'', SweepCall cutoff minPerFeed batchSize table' call table'' →
          call.2 = min batchSize.toNat (table'.filter fun e ↦
            e ∉ (retentionRule cutoff minPerFeed).kept table).length ∧
          table''.length + call.2 = table'.length) ∧
        ((victims cutoff minPerFeed table).length ≤ calls.length * batchSize.toNat →
          table' = (retentionRule cutoff minPerFeed).kept table) := by
  have hkeyed : Keyed (retentionRule cutoff minPerFeed).key table := keyed_recency hid
  constructor
  · intro scan
    have hid' : Keyed Entry.id ((retentionRule cutoff minPerFeed).kept table) :=
      hid.sublist List.filter_sublist
    refine ⟨congrArg Prod.snd (sweep_unbatched hid hN), ?_⟩
    rw [sweep_unbatched hid' hN, Retention.surplus_kept hkeyed,
      Retention.kept_eq_self (Retention.surplus_kept hkeyed)]
    rfl
  · intro batchSize calls table' hB hrun
    obtain ⟨hid', hthins⟩ := sweeps_thin hid hN hB hrun
    obtain ⟨-, hkept, -⟩ := Retention.thinning_run hkeyed hthins
    refine ⟨?_, ?_, ?_, ?_⟩
    · intro e he
      rw [← hkept] at he
      exact (Retention.mem_kept.mp he).1
    · let scan := victims cutoff minPerFeed table'
      exact ⟨(scan, (sweep cutoff minPerFeed batchSize scan table').1),
        (sweep cutoff minPerFeed batchSize scan table').2, .refl _, rfl⟩
    · rintro ⟨scan, n⟩ table'' ⟨hscan, hsweep⟩
      have hcount := (sweep_batched hid' hN hB hscan).2
      have hlength := sweep_length cutoff minPerFeed batchSize scan table'
      rw [hsweep] at hcount hlength
      rw [surplus_eq_of_kept_eq hkept] at hcount
      exact ⟨hcount, hlength⟩
    · intro henough
      rw [victims_eq_surplus hid hN] at henough
      refine Retention.thinning_run_ends hkeyed hthins ?_
      rwa [List.length_map]

/-- Whatever the batch size, a sweep spares what the rule keeps. -/
theorem sweep_spares (hid : Keyed Entry.id table) (hN : 0 ≤ minPerFeed) {scan : List Entry}
    (hscan : scan.Perm (victims cutoff minPerFeed table)) {e : Entry}
    (he : e ∈ (retentionRule cutoff minPerFeed).kept table) :
    e ∈ (sweep cutoff minPerFeed batchSize scan table).2 := by
  by_cases hB : 0 < batchSize
  · have hthins := (sweep_batched hid hN hB hscan).1
    rw [← hthins.kept_eq (keyed_recency hid)] at he
    exact (Retention.mem_kept.mp he).1
  · have hunbatched : sweep cutoff minPerFeed batchSize scan table =
        sweep cutoff minPerFeed 0 scan table := by
      rw [sweep, if_neg hB, sweep, if_neg (lt_irrefl 0)]
    rw [hunbatched, sweep_unbatched hid hN]
    exact he

/-- No tick deletes an entry that is younger than `retention_days`, or among the first ones of its
feed. -/
theorem tickOnce_spares {cfg : RetentionSettings} {now : Datetime} {fails : Bool}
    {scan : List Entry} (hid : Keyed Entry.id table) (hN : 0 ≤ cfg.retentionMinPerFeed)
    (hscan : ∀ cutoff : Datetime, cutoff.micros = now.micros - cfg.retentionDays * microsPerDay →
      scan.Perm (victims cutoff cfg.retentionMinPerFeed table)) {e : Entry} (he : e ∈ table)
    (hyoung : now.micros - cfg.retentionDays * microsPerDay ≤ e.fetchedAt.micros ∨
      rowNumber table e ≤ cfg.retentionMinPerFeed) :
    e ∈ (tickOnce cfg now fails scan table).2 := by
  rcases tickOnce_cases cfg now fails scan table with ⟨exc, h⟩ | ⟨cutoff, hcutoff, h⟩
  · rw [h]
    exact he
  · rw [h]
    refine sweep_spares hid hN (hscan cutoff hcutoff) (Retention.mem_kept.mpr ⟨he, ?_⟩)
    rcases hyoung with hyoung | hfirst
    · rw [← hcutoff] at hyoung
      exact .inl (decide_eq_true hyoung)
    · exact .inr ((rowNumber_le_iff hN he).mp hfirst)

end

/-- An entry of one feed, fetched at this instant. -/
def fetchedEntry (id : Int) (fetchedAt : Datetime) : Entry :=
  ⟨id, 1, [], [], none, none, none, none, fetchedAt, fetchedAt⟩

/-- Two entries from before the cutoff, with a tie, and one from after it. -/
def agedEntries : List Entry :=
  [fetchedEntry 1 .year2000, fetchedEntry 2 .year2000, fetchedEntry 3 .year2101]

/-- Two batches of one row, in an order in which the older row comes last, leave what one sweep
leaves. -/
theorem agedEntries_swept :
    Run (SweepCall .year2101 1 1) agedEntries
      [([fetchedEntry 2 .year2000, fetchedEntry 1 .year2000], 1),
        ([fetchedEntry 1 .year2000], 1)] [fetchedEntry 3 .year2101] ∧
    (sweep .year2101 1 0 [] agedEntries).2 = [fetchedEntry 3 .year2101] := by
  have hfirst : SweepCall .year2101 1 1 agedEntries
      ([fetchedEntry 2 .year2000, fetchedEntry 1 .year2000], 1)
      [fetchedEntry 1 .year2000, fetchedEntry 3 .year2101] := by
    decide +kernel
  have hsecond : SweepCall .year2101 1 1 [fetchedEntry 1 .year2000, fetchedEntry 3 .year2101]
      ([fetchedEntry 1 .year2000], 1) [fetchedEntry 3 .year2101] := by
    decide +kernel
  have hrun := (Run.nil.snoc hfirst).snoc hsecond
  have hkeeps := sweep_keeps_union .year2101 1 agedEntries (by decide) (by decide +kernel)
  refine ⟨hrun, ((hkeeps.1 []).1).trans ?_⟩
  exact ((hkeeps.2 1 _ _ (by decide) hrun).2.2.2 (by decide +kernel)).symm

end FeedgateFetcher
