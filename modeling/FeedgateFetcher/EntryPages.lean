import FeedgateFetcher.Api.Entries

/-!
# Walks through the entries

A client that follows `next_cursor` until it is null.  On a table that does not
change it receives the entries of its feeds in order.  While the table changes it
receives every entry that stays where it is in the order.
-/

namespace FeedgateFetcher

open Python Logic Table

section

variable (cfg : EntriesSettings) (feedIds : Text) (limit : Option Nat)

/-- All pages from a cursor on, on an unchanged table; given up after `fuel` requests. -/
def followCursors (table : List Entry) : (fuel : Nat) → Option EntryCursor → Option (List Entry)
  | 0, _ => none
  | fuel + 1, cursor => match listEntries cfg feedIds cursor limit table with
    | .error _ => none
    | .ok ⟨items, none⟩ => some items
    | .ok ⟨items, some c⟩ => (followCursors table fuel (some c)).map fun rest ↦ items ++ rest

/-- The pages of a completed walk from a cursor on, with the tables that its requests meet. -/
inductive EntryWalk : Option EntryCursor → List (List Entry) → List (List Entry) → Prop
  | last {cursor : Option EntryCursor} {table items : List Entry} :
    listEntries cfg feedIds cursor limit table = .ok ⟨items, none⟩ →
    EntryWalk cursor [table] [items]
  | next {cursor : Option EntryCursor} {table items : List Entry} {c : EntryCursor}
    {tables pages : List (List Entry)} :
    listEntries cfg feedIds cursor limit table = .ok ⟨items, some c⟩ →
    EntryWalk (some c) tables pages → EntryWalk cursor (table :: tables) (items :: pages)

end

section

variable {cfg : EntriesSettings} {feedIds : Text} {limit : Option Nat} {ids : List Int}
  {table : List Entry}

/-- Entries with different ids have different places. -/
theorem keyed_position (h : Keyed Entry.id table) : Keyed Entry.position table := by
  have hmap : ((table.map Entry.position).map fun k ↦ (ofLex k).2).Nodup := by
    rw [List.map_map]
    exact h
  exact List.Nodup.of_map _ hmap

theorem keyed_ofFeeds (h : Keyed Entry.id table) (ids : List Int) :
    Keyed Entry.id (ofFeeds ids table) := h.sublist List.filter_sublist

/-- Following cursors is walking through the ranking. -/
theorem followCursors_eq (h : ValidRequest cfg feedIds limit ids) (fuel : Nat)
    (cursor : Option EntryCursor) :
    followCursors cfg feedIds limit table fuel cursor =
      walk Entry.position (limit.getD cfg.apiEntriesDefaultLimit) (ofFeeds ids table) fuel
        (cursor.map EntryCursor.position) := by
  induction fuel generalizing cursor with
  | zero => rfl
  | succ fuel ih =>
      rw [followCursors, walk, listEntries_of_valid h, ← selectPage_eq]
      rcases selectPage ids cursor (limit.getD cfg.apiEntriesDefaultLimit) table with
        ⟨items, _ | c⟩
      · rfl
      · dsimp only
        rw [ih]
        rfl

/-- A completed walk is one through the rankings of its tables. -/
theorem EntryWalk.walks (hv : ValidRequest cfg feedIds limit ids) {cursor : Option EntryCursor}
    {tables pages : List (List Entry)} (h : EntryWalk cfg feedIds limit cursor tables pages) :
    Walks Entry.position (limit.getD cfg.apiEntriesDefaultLimit)
      (cursor.map EntryCursor.position) (tables.map (ofFeeds ids)) pages := by
  induction h with
  | @last cursor table items hp =>
      rw [listEntries_of_valid hv, Except.ok.injEq] at hp
      have hpage := selectPage_eq ids cursor (limit.getD cfg.apiEntriesDefaultLimit) table
      rw [hp] at hpage
      exact .last hpage.symm
  | @next cursor table items c tables pages hp _ ih =>
      rw [listEntries_of_valid hv, Except.ok.injEq] at hp
      have hpage := selectPage_eq ids cursor (limit.getD cfg.apiEntriesDefaultLimit) table
      rw [hp] at hpage
      exact .next hpage.symm ih

/-- The row of this entry is in the table, where it belongs in the order. -/
def Stays (e : Entry) (table : List Entry) : Prop :=
  ∃ f ∈ table, f.feedId = e.feedId ∧ f.publishedAt = e.publishedAt ∧ f.id = e.id

/-- A walk over an unchanged table ends, and yields the entries of the feeds once each and in
order.  A walk over a changing table returns every entry that stays where it is exactly once. -/
theorem pagination_complete (cfg : EntriesSettings) (feedIds : Text) (limit : Option Nat)
    (ids : List Int) (hv : ValidRequest cfg feedIds limit ids)
    (hlimit : 1 ≤ limit.getD cfg.apiEntriesDefaultLimit) :
    (∀ table : List Entry, Keyed Entry.id table → ∃ entries : List Entry,
      (∀ fuel, table.length < fuel →
        followCursors cfg feedIds limit table fuel none = some entries) ∧
      entries.Perm (ofFeeds ids table) ∧
      entries.Pairwise fun e f ↦ f.position < e.position) ∧
    ∀ (tables pages : List (List Entry)), (∀ table ∈ tables, Keyed Entry.id table) →
      EntryWalk cfg feedIds limit none tables pages →
        ∀ e : Entry, e.feedId ∈ ids → (∀ table ∈ tables, Stays e table) →
          (pages.flatten.countP fun f ↦ f.id = e.id) = 1 := by
  constructor
  · intro table hid
    have hkeyed := keyed_position (keyed_ofFeeds hid ids)
    refine ⟨ranked Entry.position (ofFeeds ids table), ?_, ranked_perm _ _, hkeyed.ranked_pairwise⟩
    intro fuel hfuel
    rw [followCursors_eq hv]
    refine walk_eq hkeyed hlimit (lt_of_le_of_lt (List.length_filter_le _ _) ?_)
    exact lt_of_lt_of_le hfuel (Nat.le_mul_of_pos_right fuel hlimit)
  · intro tables pages hid hwalk e hfeed hstays
    have hkeyed : ∀ rows ∈ tables.map (ofFeeds ids), Keyed Entry.position rows := by
      intro rows hrows
      obtain ⟨table, htable, rfl⟩ := List.mem_map.mp hrows
      exact keyed_position (keyed_ofFeeds (hid table htable) ids)
    have hmem : ∀ rows ∈ tables.map (ofFeeds ids), ∃ f ∈ rows, f.position = e.position := by
      intro rows hrows
      obtain ⟨table, htable, rfl⟩ := List.mem_map.mp hrows
      obtain ⟨f, hf, hfeed', hpub, hfid⟩ := hstays table htable
      refine ⟨f, List.mem_filter.mpr ⟨hf, decide_eq_true (hfeed' ▸ hfeed)⟩, ?_⟩
      rw [Entry.position, hpub, hfid]
      rfl
    rw [← ((hwalk.walks hv).countP_eq hlimit hkeyed hmem).1 nofun]
    refine List.countP_congr fun f hf ↦ ?_
    simp only [decide_eq_true_eq]
    constructor
    · intro hfid
      obtain ⟨rows, hrows, hmemf⟩ := (hwalk.walks hv).mem_tables hf
      obtain ⟨table, htable, rfl⟩ := List.mem_map.mp hrows
      obtain ⟨g, hg, -, hpub, hgid⟩ := hstays table htable
      have hsame : f = g := (hid table htable).eq_of_key (List.mem_of_mem_filter hmemf) hg
        (hfid.trans hgid.symm)
      rw [Entry.position, hsame, hpub, hgid]
      rfl
    · exact fun hplace ↦ congrArg (fun k ↦ (ofLex k).2) hplace

end

/-- An entry of feed 1, published at this instant. -/
def publishedEntry (id : Int) (publishedAt : Option Datetime) : Entry :=
  ⟨id, 1, [], [], none, none, none, publishedAt, .year2000, .year2000⟩

theorem onePerPage_valid : ValidRequest {} "1".toList (some 1) [1] where
  limit := by decide
  parsed := by decide
  nonempty := by decide
  length := by decide

/-- An entry without a date and two that share one. -/
def tiedEntries : List Entry :=
  [publishedEntry 1 (some .year2000), publishedEntry 2 none, publishedEntry 3 (some .year2000)]

/-- Pages of one entry each, from the entry without a date through the tie.  In the second walk
the entries of the first two pages are deleted behind it, and a new one comes in there. -/
theorem tiedEntries_walked :
    (∃ entries, followCursors {} "1".toList (some 1) tiedEntries 4 none = some entries ∧
      entries.Perm (ofFeeds [1] tiedEntries)) ∧
    ([[publishedEntry 2 none], [publishedEntry 3 (some .year2000)],
      [publishedEntry 1 (some .year2000)]].flatten.countP fun f ↦ f.id = 1) = 1 := by
  have hcomplete := pagination_complete {} "1".toList (some 1) [1] onePerPage_valid (by decide)
  constructor
  · obtain ⟨entries, hfollow, hperm, -⟩ := hcomplete.1 tiedEntries (by decide +kernel)
    exact ⟨entries, hfollow 4 (by decide), hperm⟩
  · have hwalk : EntryWalk {} "1".toList (some 1) none
        [tiedEntries,
          [publishedEntry 1 (some .year2000), publishedEntry 3 (some .year2000),
            publishedEntry 4 none],
          [publishedEntry 1 (some .year2000), publishedEntry 4 none]]
        [[publishedEntry 2 none], [publishedEntry 3 (some .year2000)],
          [publishedEntry 1 (some .year2000)]] :=
      .next (c := ⟨none, 2⟩) (by decide +kernel)
        (.next (c := ⟨some .year2000, 3⟩) (by decide +kernel) (.last (by decide +kernel)))
    refine hcomplete.2 _ _ ?_ hwalk (publishedEntry 1 (some .year2000)) (by decide) ?_
    · decide +kernel
    · unfold Stays
      decide +kernel

end FeedgateFetcher
