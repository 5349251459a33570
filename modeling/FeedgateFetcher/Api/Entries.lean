import Mathlib.Data.Prod.Lex
import Mathlib.Order.WithBot
import FeedgateFetcher.Api.Feeds
import FeedgateFetcher.Logic.Pagination
import FeedgateFetcher.Logic.Truth

/-!
# `GET /v1/entries`

`list_entries`.  A cursor stands here for what it encodes, the sort key of the last
entry of a page: `_decode_cursor` returns what was given to `_encode_cursor`.
-/

namespace FeedgateFetcher

open Python Logic Table

/-- The part of `config.Settings` that the endpoint reads. -/
structure EntriesSettings where
  apiEntriesMaxFeedIds : Nat := 200
  apiEntriesDefaultLimit : Nat := 50
  apiEntriesMaxLimit : Nat := 200

/-- What a cursor encodes. -/
structure EntryCursor where
  publishedAt : Option Datetime
  id : Int
deriving DecidableEq, Repr

/-- `PaginatedEntries`. -/
structure PaginatedEntries where
  items : List Entry
  nextCursor : Option EntryCursor
deriving DecidableEq, Repr

/-- The `WHERE` of a cursor: the tuples strictly after it in the sort order. -/
def afterCursor (c : EntryCursor) (e : Entry) : Truth :=
  match c.publishedAt with
  | none =>
    (Truth.and (some e.publishedAt.isNone) (some (e.id < c.id))).or (some e.publishedAt.isSome)
  | some curPub =>
    (Truth.compare (fun a b ↦ a < b) e.publishedAt (some curPub)).or
      ((Truth.compare (fun a b ↦ a = b) e.publishedAt (some curPub)).and (some (e.id < c.id)))

/-- A publication date under `DESC`, where NULL comes first. -/
def nullsFirst (publishedAt : Option Datetime) : WithTop Datetime := publishedAt

/-- `published_at DESC, id DESC`. -/
def Entry.position (e : Entry) : WithTop Datetime ×ₗ Int := toLex (nullsFirst e.publishedAt, e.id)

/-- The parameter `feed_ids`. -/
def parseFeedIds (feedIds : Text) : Except HttpException (List Int) :=
  (((Text.split ',' feedIds).filter fun x ↦ !x.isEmpty).mapM Text.toInt).mapError
    fun _ ↦ ⟨400, "invalid feed_ids".toList⟩

/-- The statement of `list_entries`, and the page made from its rows. -/
def selectPage (feedIdList : List Int) (cursor : Option EntryCursor) (limitValue : Nat)
    (table : List Entry) : PaginatedEntries :=
  let stmt := table.filter fun e ↦ e.feedId ∈ feedIdList
  let stmt := match cursor with
    | none => stmt
    | some c => stmt.filter fun e ↦ (afterCursor c e).Holds
  let rows := (ranked Entry.position stmt).take (limitValue + 1)
  let items := rows.take limitValue
  { items := items
    nextCursor :=
      if limitValue < rows.length then items.getLast?.map fun last ↦ ⟨last.publishedAt, last.id⟩
      else none }

/-- `list_entries`; a `limit` below 1 does not get here. -/
def listEntries (cfg : EntriesSettings) (feedIds : Text) (cursor : Option EntryCursor)
    (limit : Option Nat) (table : List Entry) : Except HttpException PaginatedEntries :=
  let limitValue := limit.getD cfg.apiEntriesDefaultLimit
  if cfg.apiEntriesMaxLimit < limitValue then
    .error ⟨422, s!"limit must be less than or equal to {cfg.apiEntriesMaxLimit}".toList⟩
  else match parseFeedIds feedIds with
    | .error exc => .error exc
    | .ok feedIdList =>
      if feedIdList.isEmpty then .error ⟨400, "feed_ids is required".toList⟩
      else if cfg.apiEntriesMaxFeedIds < feedIdList.length then
        .error ⟨400, s!"feed_ids length exceeds {cfg.apiEntriesMaxFeedIds}".toList⟩
      else .ok (selectPage feedIdList cursor limitValue table)

/-! ## The page behind the statement -/

def EntryCursor.position (c : EntryCursor) : WithTop Datetime ×ₗ Int :=
  toLex (nullsFirst c.publishedAt, c.id)

theorem nullsFirst_lt_top_iff {t : Option Datetime} : nullsFirst t < ⊤ ↔ t.isSome = true := by
  cases t with
  | none => exact iff_of_false (lt_irrefl _) nofun
  | some t => exact iff_of_true (WithTop.coe_lt_top t) rfl

theorem nullsFirst_eq_top_iff {t : Option Datetime} : nullsFirst t = ⊤ ↔ t.isNone = true := by
  cases t with
  | none => exact iff_of_true rfl rfl
  | some t => exact iff_of_false (WithTop.coe_ne_top) nofun

theorem nullsFirst_lt_coe_iff {t : Option Datetime} {p : Datetime} :
    nullsFirst t < nullsFirst (some p) ↔ ∃ x ∈ t, x < p := by
  cases t with
  | none => exact iff_of_false not_top_lt nofun
  | some t =>
      refine WithTop.coe_lt_coe.trans ⟨fun h ↦ ⟨t, rfl, h⟩, ?_⟩
      rintro ⟨_, ⟨⟩, h⟩
      exact h

theorem nullsFirst_eq_coe_iff {t : Option Datetime} {p : Datetime} :
    nullsFirst t = nullsFirst (some p) ↔ ∃ x ∈ t, x = p := by
  cases t with
  | none => exact iff_of_false (WithTop.top_ne_coe) nofun
  | some t =>
      refine WithTop.coe_inj.trans ⟨fun h ↦ ⟨t, rfl, h⟩, ?_⟩
      rintro ⟨_, ⟨⟩, h⟩
      exact h

/-- The `WHERE` of a cursor is the order of the `ORDER BY`. -/
theorem afterCursor_iff {c : EntryCursor} {e : Entry} :
    (afterCursor c e).Holds ↔ e.position < c.position := by
  refine Iff.trans ?_ Prod.Lex.toLex_lt_toLex.symm
  unfold afterCursor
  cases c.publishedAt with
  | none =>
      rw [Truth.holds_or_iff, Truth.holds_and_iff, Truth.holds_some_iff, Truth.holds_some_iff,
        Truth.holds_some_iff, decide_eq_true_iff, ← nullsFirst_lt_top_iff, ← nullsFirst_eq_top_iff]
      exact Or.comm
  | some p =>
      rw [Truth.holds_or_iff, Truth.holds_and_iff, Truth.holds_some_iff,
        Truth.holds_compare_some_iff, Truth.holds_compare_some_iff, decide_eq_true_iff]
      simp only [decide_eq_true_iff]
      rw [← nullsFirst_lt_coe_iff, ← nullsFirst_eq_coe_iff]

/-- A request that is not turned down, for the feeds `ids`. -/
structure ValidRequest (cfg : EntriesSettings) (feedIds : Text) (limit : Option Nat)
    (ids : List Int) : Prop where
  limit : limit.getD cfg.apiEntriesDefaultLimit ≤ cfg.apiEntriesMaxLimit
  parsed : parseFeedIds feedIds = .ok ids
  nonempty : ids ≠ []
  length : ids.length ≤ cfg.apiEntriesMaxFeedIds

/-- The entries of these feeds. -/
def ofFeeds (ids : List Int) (table : List Entry) : List Entry :=
  table.filter fun e ↦ e.feedId ∈ ids

/-- The statement selects a page of the ranking. -/
theorem selectPage_eq (ids : List Int) (cursor : Option EntryCursor) (limit : Nat)
    (table : List Entry) :
    ((selectPage ids cursor limit table).items,
        (selectPage ids cursor limit table).nextCursor.map EntryCursor.position) =
      page Entry.position limit (cursor.map EntryCursor.position) (ofFeeds ids table) := by
  have hstmt : (match cursor with
      | none => ofFeeds ids table
      | some c => (ofFeeds ids table).filter fun e ↦ (afterCursor c e).Holds) =
        beyond Entry.position (cursor.map EntryCursor.position) (ofFeeds ids table) := by
    cases cursor with
    | none => rfl
    | some c => exact List.filter_congr fun e _ ↦ decide_eq_decide.mpr afterCursor_iff
  unfold ofFeeds at hstmt
  unfold selectPage page leading ofFeeds
  dsimp only
  rw [hstmt]
  refine congrArg (Prod.mk _) ?_
  split
  · rw [Option.map_map]
    rfl
  · rfl

theorem listEntries_of_valid {cfg : EntriesSettings} {feedIds : Text} {limit : Option Nat}
    {ids : List Int} (h : ValidRequest cfg feedIds limit ids) (cursor : Option EntryCursor)
    (table : List Entry) :
    listEntries cfg feedIds cursor limit table =
      .ok (selectPage ids cursor (limit.getD cfg.apiEntriesDefaultLimit) table) := by
  unfold listEntries
  dsimp only
  rw [if_neg (not_lt.mpr h.limit), h.parsed]
  dsimp only
  rw [if_neg (mt List.isEmpty_iff.mp h.nonempty), if_neg (not_lt.mpr h.length)]

/-- Every other request is turned down, on an unchanged table as on any. -/
theorem listEntries_ok {cfg : EntriesSettings} {feedIds : Text} {limit : Option Nat}
    {cursor : Option EntryCursor} {table : List Entry} {p : PaginatedEntries}
    (h : listEntries cfg feedIds cursor limit table = .ok p) :
    ∃ ids, ValidRequest cfg feedIds limit ids := by
  unfold listEntries at h
  dsimp only at h
  split at h
  · cases h
  · rename_i hlimit
    cases hp : parseFeedIds feedIds with
    | error exc =>
        rw [hp] at h
        cases h
    | ok ids =>
        rw [hp] at h
        dsimp only at h
        split at h
        · cases h
        · rename_i hempty
          split at h
          · cases h
          · rename_i hlength
            exact ⟨ids, not_lt.mp hlimit, hp, mt List.isEmpty_iff.mpr hempty, not_lt.mp hlength⟩

end FeedgateFetcher
