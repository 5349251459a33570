import Mathlib.Data.Prod.Lex
import FeedgateFetcher.Fetcher.Errors
import FeedgateFetcher.Logic.Retention

/-!
# The retention sweep

`sweep`, one `DELETE` on the `entries` table, and `tick_once`, the transaction
around it.  The victims of a batch come from a `LIMIT` without `ORDER BY`, so the
order in which the server meets the rows outside the keep set is a parameter
`scan`.
-/

namespace FeedgateFetcher

open Python Logic Table

/-- The part of `config.Settings` that the retention sweep reads. -/
structure RetentionSettings where
  retentionDays : Int := 90
  retentionMinPerFeed : Int := 20
  retentionBatchSize : Int := 1000

/-- `fetched_at DESC, id DESC`. -/
def Entry.recency (e : Entry) : Datetime ×ₗ Int := toLex (e.fetchedAt, e.id)

/-- `row_number() OVER (PARTITION BY feed_id ORDER BY fetched_at DESC, id DESC)`. -/
def rowNumber (table : List Entry) (e : Entry) : Nat :=
  (ranked Entry.recency (table.filter fun f ↦ f.feedId = e.feedId)).idxOf e + 1

/-- The subquery `keep`, the union of `time_window` and `top_n`. -/
def keepIds (cutoff : Datetime) (minPerFeed : Int) (table : List Entry) : List Int :=
  let timeWindow := table.filter fun e ↦ cutoff ≤ e.fetchedAt
  let topN := table.filter fun e ↦ rowNumber table e ≤ minPerFeed
  timeWindow.map Entry.id ++ topN.map Entry.id

/-- The rows that `WHERE id NOT IN (SELECT id FROM keep)` selects. -/
def victims (cutoff : Datetime) (minPerFeed : Int) (table : List Entry) : List Entry :=
  table.filter fun e ↦ e.id ∉ keepIds cutoff minPerFeed table

/-- `sweep`: the number of rows deleted, and the table without them. -/
def sweep (cutoff : Datetime) (minPerFeed batchSize : Int) (scan table : List Entry) :
    Nat × List Entry :=
  if 0 < batchSize then
    let victimIds := (scan.take batchSize.toNat).map Entry.id
    (table.countP fun e ↦ e.id ∈ victimIds, table.filter fun e ↦ e.id ∉ victimIds)
  else
    ((victims cutoff minPerFeed table).length,
      table.filter fun e ↦ e.id ∈ keepIds cutoff minPerFeed table)

/-- `tick_once`, on a server that rejects the statement when `fails`: an exception rolls the
transaction back. -/
def tickOnce (cfg : RetentionSettings) (now : Datetime) (fails : Bool) (scan table : List Entry) :
    Except Exc Nat × List Entry :=
  match (Timedelta.ofDays cfg.retentionDays).bind now.subDelta with
  | .error e => (.error (.builtin e), table)
  | .ok cutoff =>
    if fails then (.error .database, table)
    else
      let (n, table') := sweep cutoff cfg.retentionMinPerFeed cfg.retentionBatchSize scan table
      (.ok n, table')

/-- The ids of the rows that a tick deletes, if its statement has this table as its snapshot. -/
def sweptIds (cfg : RetentionSettings) (now : Datetime) (fails : Bool)
    (scan snapshot : List Entry) : List Int :=
  (snapshot.filter fun e ↦ e ∉ (tickOnce cfg now fails scan snapshot).2).map Entry.id

/-! ## The rule behind the statement -/

/-- The rows inside the time window, and the most recent ones of every feed. -/
def retentionRule (cutoff : Datetime) (minPerFeed : Int) :
    Retention Entry (Datetime ×ₗ Int) Int where
  window e := cutoff ≤ e.fetchedAt
  cls := Entry.feedId
  key := Entry.recency
  first := minPerFeed.toNat

section

variable {cutoff : Datetime} {minPerFeed batchSize : Int} {scan table : List Entry} {e : Entry}

/-- Rows with different ids have different places. -/
theorem keyed_recency (h : Keyed Entry.id table) : Keyed Entry.recency table := by
  have hmap : ((table.map Entry.recency).map fun k ↦ (ofLex k).2).Nodup := by
    rw [List.map_map]
    exact h
  exact List.Nodup.of_map _ hmap

/-- The row number counts the places of the ranking. -/
theorem rowNumber_le_iff (hN : 0 ≤ minPerFeed) (he : e ∈ table) :
    rowNumber table e ≤ minPerFeed ↔
      e ∈ leading Entry.recency minPerFeed.toNat
        ((retentionRule cutoff minPerFeed).peers table e) := by
  have hmem : e ∈ ranked Entry.recency (table.filter fun f ↦ f.feedId = e.feedId) :=
    mem_ranked.mpr (List.mem_filter.mpr ⟨he, decide_eq_true rfl⟩)
  refine Iff.trans ?_ (List.mem_take_iff_idxOf_lt hmem).symm
  unfold rowNumber
  omega

theorem id_mem_map_iff {p : Entry → Bool} (h : Keyed Entry.id table) (he : e ∈ table) :
    e.id ∈ (table.filter p).map Entry.id ↔ p e = true := by
  constructor
  · intro hid
    obtain ⟨f, hf, hfe⟩ := List.mem_map.mp hid
    obtain ⟨hmem, hp⟩ := List.mem_filter.mp hf
    rwa [h.eq_of_key hmem he hfe] at hp
  · exact fun hp ↦ List.mem_map_of_mem (List.mem_filter.mpr ⟨he, hp⟩)

/-- The subquery selects what the rule keeps. -/
theorem mem_keepIds_iff (h : Keyed Entry.id table) (hN : 0 ≤ minPerFeed) (he : e ∈ table) :
    e.id ∈ keepIds cutoff minPerFeed table ↔ (retentionRule cutoff minPerFeed).Keeps table e := by
  unfold keepIds
  rw [List.mem_append, id_mem_map_iff h he, id_mem_map_iff h he]
  exact or_congr Iff.rfl (decide_eq_true_iff.trans (rowNumber_le_iff hN he))

theorem victims_eq_surplus (h : Keyed Entry.id table) (hN : 0 ≤ minPerFeed) :
    victims cutoff minPerFeed table = (retentionRule cutoff minPerFeed).surplus table :=
  List.filter_congr fun _ he ↦ decide_eq_decide.mpr (not_congr (mem_keepIds_iff h hN he))

/-- Without batches the sweep leaves what the rule keeps. -/
theorem sweep_unbatched (h : Keyed Entry.id table) (hN : 0 ≤ minPerFeed) :
    sweep cutoff minPerFeed 0 scan table =
      (((retentionRule cutoff minPerFeed).surplus table).length,
        (retentionRule cutoff minPerFeed).kept table) := by
  rw [sweep, if_neg (lt_irrefl 0), victims_eq_surplus h hN]
  exact congrArg (Prod.mk _)
    (List.filter_congr fun _ he ↦ decide_eq_decide.mpr (mem_keepIds_iff h hN he))

/-- The number that is returned is the number of rows that are gone. -/
theorem sweep_length (cutoff : Datetime) (minPerFeed batchSize : Int) (scan table : List Entry) :
    (sweep cutoff minPerFeed batchSize scan table).2.length +
      (sweep cutoff minPerFeed batchSize scan table).1 = table.length := by
  have hsplit : ∀ ids : List Int, (table.filter fun e ↦ e.id ∉ ids).length +
      (table.filter fun e ↦ e.id ∈ ids).length = table.length := by
    intro ids
    have hlength := List.length_eq_length_filter_add (l := table) fun e ↦ decide (e.id ∈ ids)
    simp only [decide_not]
    omega
  unfold sweep
  split
  · dsimp only
    rw [List.countP_eq_length_filter]
    exact hsplit _
  · exact (Nat.add_comm _ _).trans (hsplit _)

/-- A batch deletes the rows that the server meets first. -/
theorem sweep_batched (h : Keyed Entry.id table) (hN : 0 ≤ minPerFeed) (hB : 0 < batchSize)
    (hscan : scan.Perm (victims cutoff minPerFeed table)) :
    (retentionRule cutoff minPerFeed).Thins batchSize.toNat table scan
        (sweep cutoff minPerFeed batchSize scan table).2 ∧
      (sweep cutoff minPerFeed batchSize scan table).1 =
        min batchSize.toNat ((retentionRule cutoff minPerFeed).surplus table).length := by
  have hmem : ∀ e ∈ scan.take batchSize.toNat, e ∈ table := fun e he ↦
    (List.mem_filter.mp (hscan.mem_iff.mp (List.mem_of_mem_take he))).1
  have hid : ∀ e ∈ table, e.id ∈ (scan.take batchSize.toNat).map Entry.id ↔
      e ∈ scan.take batchSize.toNat := by
    intro e he
    constructor
    · intro hid
      obtain ⟨f, hf, hfe⟩ := List.mem_map.mp hid
      rwa [h.eq_of_key (hmem f hf) he hfe] at hf
    · exact fun hf ↦ List.mem_map_of_mem hf
  have hnodup : (scan.take batchSize.toNat).Nodup :=
    (hscan.nodup_iff.mpr (h.nodup.sublist List.filter_sublist)).sublist (List.take_sublist _ _)
  rw [sweep, if_pos hB]
  rw [victims_eq_surplus h hN] at hscan
  constructor
  · exact ⟨hscan, List.filter_congr fun e he ↦ decide_eq_decide.mpr (not_congr (hid e he))⟩
  · have hdeleted : (table.filter fun e ↦ e ∈ scan.take batchSize.toNat).Perm
        (scan.take batchSize.toNat) := by
      refine (List.perm_ext_iff_of_nodup (h.nodup.sublist List.filter_sublist) hnodup).mpr ?_
      intro e
      rw [List.mem_filter, decide_eq_true_iff]
      exact ⟨fun he ↦ he.2, fun he ↦ ⟨hmem e he, he⟩⟩
    have hcount : (table.countP fun e ↦ e.id ∈ (scan.take batchSize.toNat).map Entry.id) =
        table.countP fun e ↦ e ∈ scan.take batchSize.toNat :=
      List.countP_congr fun e he ↦ by simpa using hid e he
    dsimp only
    rw [hcount, List.countP_eq_length_filter, hdeleted.length_eq, List.length_take,
      hscan.length_eq]

/-! ## The transaction -/

/-- A tick that raises leaves the table alone, and any other one is a sweep. -/
theorem tickOnce_cases (cfg : RetentionSettings) (now : Datetime) (fails : Bool)
    (scan table : List Entry) :
    (∃ exc, tickOnce cfg now fails scan table = (.error exc, table)) ∨
      ∃ cutoff : Datetime,
        cutoff.micros = now.micros - cfg.retentionDays * microsPerDay ∧
        tickOnce cfg now fails scan table =
          (.ok (sweep cutoff cfg.retentionMinPerFeed cfg.retentionBatchSize scan table).1,
            (sweep cutoff cfg.retentionMinPerFeed cfg.retentionBatchSize scan table).2) := by
  unfold tickOnce
  cases hd : Timedelta.ofDays cfg.retentionDays with
  | error e => exact .inl ⟨.builtin e, rfl⟩
  | ok days =>
      have hdays : days.micros = cfg.retentionDays * microsPerDay :=
        Timedelta.ofMicros_eq_ok_iff.mp hd
      cases hc : now.subDelta days with
      | error e =>
          refine .inl ⟨.builtin e, ?_⟩
          simp only [Except.bind, hc]
      | ok cutoff =>
          simp only [Except.bind, hc]
          cases fails with
          | true => exact .inl ⟨.database, rfl⟩
          | false => exact .inr ⟨cutoff, by rw [Datetime.subDelta_eq_ok_iff.mp hc, hdays], rfl⟩

theorem tickOnce_eq_filter (cfg : RetentionSettings) (now : Datetime) (fails : Bool)
    (scan table : List Entry) :
    ∃ p : Entry → Bool, (tickOnce cfg now fails scan table).2 = table.filter p := by
  rcases tickOnce_cases cfg now fails scan table with ⟨exc, h⟩ | ⟨cutoff, -, h⟩
  · exact ⟨fun _ ↦ true, by rw [h, List.filter_true]⟩
  · rw [h, sweep]
    split
    · exact ⟨_, rfl⟩
    · exact ⟨_, rfl⟩

/-- A tick that nothing comes between leaves what is not selected. -/
theorem filter_sweptIds (cfg : RetentionSettings) (now : Datetime) (fails : Bool)
    (scan : List Entry) (h : Keyed Entry.id table) :
    (table.filter fun e ↦ e.id ∉ sweptIds cfg now fails scan table) =
      (tickOnce cfg now fails scan table).2 := by
  obtain ⟨p, hp⟩ := tickOnce_eq_filter cfg now fails scan table
  rw [hp]
  refine List.filter_congr fun e he ↦ ?_
  have hmem : e ∈ (tickOnce cfg now fails scan table).2 ↔ p e = true := by
    rw [hp, List.mem_filter]
    exact and_iff_right he
  have hselected : e.id ∈ sweptIds cfg now fails scan table ↔ ¬p e = true := by
    rw [sweptIds, id_mem_map_iff h he, decide_eq_true_iff, hmem]
  rw [Bool.eq_iff_iff, decide_eq_true_iff, hselected, not_not]

end

end FeedgateFetcher
