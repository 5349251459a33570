import Mathlib.Order.OrderDual
import FeedgateFetcher.Api.Cursors
import FeedgateFetcher.CursorCodec
import FeedgateFetcher.Logic.Pagination

/-!
# `GET /v1/feeds`

`list_feeds`, on the rows that its statement sees.  The text of a cursor goes through
the decoder, and the id of the last feed of a page through the encoder.
-/

namespace FeedgateFetcher

open Python Logic Table

/-- `FeedResponse`. -/
structure FeedResponse where
  id : Int
  url : Text
  effectiveUrl : Text
  title : Option Text
  status : FeedStatus
  lastSuccessfulFetchAt : Option Datetime
  lastAttemptAt : Option Datetime
  lastErrorCode : Option ErrorCode
  createdAt : Datetime
deriving DecidableEq, Repr

/-- `FeedResponse.model_validate`. -/
def FeedResponse.ofFeed (f : Feed) : FeedResponse where
  id := f.id
  url := f.url
  effectiveUrl := f.effectiveUrl
  title := f.title
  status := f.status
  lastSuccessfulFetchAt := f.lastSuccessfulFetchAt
  lastAttemptAt := f.lastAttemptAt
  lastErrorCode := f.lastErrorCode
  createdAt := f.createdAt

/-- `PaginatedFeeds`. -/
structure PaginatedFeeds where
  items : List FeedResponse
  nextCursor : Option Text := none
deriving DecidableEq, Repr

/-- The part of `config.Settings` that the endpoint reads. -/
structure FeedsSettings where
  apiFeedsMaxLimit : Int := 200

/-- `limit = max(1, min(limit, max_limit))`, for the parameter `limit: int = 50`. -/
def clampLimit (cfg : FeedsSettings) (limit : Option Int) : Int :=
  max 1 (min (limit.getD 50) cfg.apiFeedsMaxLimit)

/-- `Feed.id > cur_id`, for the id in the cursor. -/
def afterFeed (depth : Nat) (cursor : Option Text) (stmt : List Feed) :
    Except (HttpException ⊕ Raised) (List Feed) :=
  match cursor with
  | none => .ok stmt
  | some text => (decodeFeedCursor depth text).map fun curId ↦ stmt.filter fun f ↦ curId < f.id

/-- `Feed.status == status_filter`, where there is a filter. -/
def matchesStatus (statusFilter : Option FeedStatus) (f : Feed) : Bool :=
  match statusFilter with
  | none => true
  | some status => f.status = status

/-- The cursor of the next page, after the feeds of this one. -/
def nextFeedCursor (hasMore : Bool) (feeds : List Feed) :
    Except (HttpException ⊕ Raised) (Option Text) :=
  match feeds.getLast? with
  | some last =>
    if hasMore then
      ((encodeFeedCursor last.id).map some).mapError fun e ↦ .inr (.builtin e)
    else .ok none
  | none => .ok none

/-- `list_feeds`. -/
def listFeeds (cfg : FeedsSettings) (depth : Nat) (cursor : Option Text) (limit : Option Int)
    (statusFilter : Option FeedStatus) (table : List Feed) :
    Except (HttpException ⊕ Raised) PaginatedFeeds := do
  let limit := (clampLimit cfg limit).toNat
  let stmt ← afterFeed depth cursor table
  let stmt := stmt.filter (matchesStatus statusFilter)
  let rows := (stmt.insertionSort fun f g ↦ f.id ≤ g.id).take (limit + 1)
  let hasMore := limit < rows.length
  let feeds := rows.take limit
  let nextCursor ← nextFeedCursor hasMore feeds
  pure ⟨feeds.map FeedResponse.ofFeed, nextCursor⟩

/-! ## The page behind the statement -/

/-- `ORDER BY id ASC`: the feed with the least id comes first. -/
def Feed.place (f : Feed) : Intᵒᵈ := OrderDual.toDual f.id

/-- The ids that a cursor leaves: those after the one it spells. -/
def cursorPlace (depth : Nat) : Option Text → Except (HttpException ⊕ Raised) (Option Intᵒᵈ)
  | none => .ok none
  | some text => (decodeFeedCursor depth text).map fun id ↦ some (OrderDual.toDual id)

theorem one_le_clampLimit (cfg : FeedsSettings) (limit : Option Int) :
    1 ≤ (clampLimit cfg limit).toNat := by
  rw [clampLimit]
  omega

/-- The rows beyond a cursor. -/
theorem afterFeed_eq (depth : Nat) (cursor : Option Text) (stmt : List Feed) :
    afterFeed depth cursor stmt =
      (cursorPlace depth cursor).map fun c ↦ beyond Feed.place c stmt := by
  cases cursor with
  | none => rfl
  | some text =>
      rw [afterFeed, cursorPlace]
      cases decodeFeedCursor depth text with
      | error e => rfl
      | ok id => rfl

theorem printableId_of_encode {id : Int} {text : Text} (h : encodeFeedCursor id = .ok text) :
    PrintableId id := by
  cases hn : Json.dumpsInt id with
  | error e =>
      have hfail : encodeFeedCursor id = .error e := by
        rw [encodeFeedCursor, dumpsCursor, Json.dumps, Json.dumpsPairs, Json.dumpsScalar, hn]
        rfl
      rw [hfail] at h
      cases h
  | ok t =>
      have hlen := (Json.dumpsInt_cases hn).1
      exact (Nat.length_toDigits_le_iff (by decide) (by decide)).mp hlen

/-- The cursor of the next page spells the place of the last feed on this one. -/
theorem nextFeedCursor_place (depth : Nat) {hasMore : Bool} {feeds : List Feed}
    {next : Option Text} (h : nextFeedCursor hasMore feeds = .ok next) :
    let place := if hasMore then feeds.getLast?.map Feed.place else none
    cursorPlace depth next = .ok place ∧ next.isSome = place.isSome := by
  intro place
  unfold place
  unfold nextFeedCursor at h
  cases hlast : feeds.getLast? with
  | none =>
      rw [hlast] at h
      cases h
      cases hasMore with
      | true => exact ⟨rfl, rfl⟩
      | false => exact ⟨rfl, rfl⟩
  | some last =>
      rw [hlast] at h
      cases hasMore with
      | false =>
          cases h
          exact ⟨rfl, rfl⟩
      | true =>
          cases hencode : encodeFeedCursor last.id with
          | error e =>
              simp only [hencode] at h
              cases h
          | ok text =>
              simp only [hencode] at h
              cases h
              obtain ⟨text', hencode', _, hdecode⟩ :=
                decodeFeedCursor_encodeFeedCursor depth (printableId_of_encode hencode)
              cases hencode.symm.trans hencode'
              rw [cursorPlace, hdecode]
              exact ⟨rfl, rfl⟩

/-- The response, for the first rows of the statement. -/
def feedsResponse (limit : Nat) (rows : List Feed) :
    Except (HttpException ⊕ Raised) PaginatedFeeds :=
  (nextFeedCursor (limit < rows.length) (rows.take limit)).map fun next ↦
    ⟨(rows.take limit).map FeedResponse.ofFeed, next⟩

section

variable {cfg : FeedsSettings} {depth : Nat} {cursor : Option Text} {limit : Option Int}
  {statusFilter : Option FeedStatus} {table : List Feed} {c : Option Intᵒᵈ}

theorem listFeeds_eq (hcursor : cursorPlace depth cursor = .ok c) :
    listFeeds cfg depth cursor limit statusFilter table =
      feedsResponse (clampLimit cfg limit).toNat
        (leading Feed.place ((clampLimit cfg limit).toNat + 1)
          (beyond Feed.place c (table.filter (matchesStatus statusFilter)))) := by
  have hbeyond : (beyond Feed.place c table).filter (matchesStatus statusFilter) =
      beyond Feed.place c (table.filter (matchesStatus statusFilter)) := by
    cases c with
    | none => rfl
    | some c => simp only [beyond, List.filter_filter, Bool.and_comm]
  rw [listFeeds, afterFeed_eq, hcursor, ← hbeyond]
  rfl

theorem feedsResponse_page (depth : Nat) {limit : Nat} {found : List Feed} {p : PaginatedFeeds}
    (h : feedsResponse limit found = .ok p) :
    let next := if limit < found.length then (found.take limit).getLast?.map Feed.place else none
    p.items = (found.take limit).map FeedResponse.ofFeed ∧
      cursorPlace depth p.nextCursor = .ok next ∧ p.nextCursor.isSome = next.isSome := by
  intro next
  unfold feedsResponse at h
  cases hnext : nextFeedCursor (limit < found.length) (found.take limit) with
  | error e =>
      rw [hnext] at h
      cases h
  | ok cursor =>
      rw [hnext] at h
      cases h
      have hplace := nextFeedCursor_place depth hnext
      simp only [decide_eq_true_eq] at hplace
      exact ⟨rfl, hplace⟩

/-- A response shows a page of the feeds that match, and its cursor is that of the page. -/
theorem listFeeds_page {p : PaginatedFeeds} (hcursor : cursorPlace depth cursor = .ok c)
    (h : listFeeds cfg depth cursor limit statusFilter table = .ok p) :
    let shown := page Feed.place (clampLimit cfg limit).toNat c
      (table.filter (matchesStatus statusFilter))
    p.items = shown.1.map FeedResponse.ofFeed ∧ cursorPlace depth p.nextCursor = .ok shown.2 ∧
      p.nextCursor.isSome = shown.2.isSome := by
  rw [listFeeds_eq hcursor] at h
  exact feedsResponse_page depth h

/-- Ids of the column's type are always spelled. -/
theorem listFeeds_ok (hcursor : cursorPlace depth cursor = .ok c)
    (hid : ∀ f ∈ table, PrintableId f.id) :
    ∃ p, listFeeds cfg depth cursor limit statusFilter table = .ok p := by
  rw [listFeeds_eq hcursor, feedsResponse, nextFeedCursor]
  cases hlast : ((leading Feed.place ((clampLimit cfg limit).toNat + 1)
      (beyond Feed.place c (table.filter (matchesStatus statusFilter)))).take
        (clampLimit cfg limit).toNat).getLast? with
  | none => exact ⟨_, rfl⟩
  | some last =>
      have hmem : last ∈ table := List.mem_of_mem_filter (mem_beyond.mp (mem_ranked.mp
        (List.mem_of_mem_take (List.mem_of_mem_take (List.mem_of_getLast? hlast))))).1
      obtain ⟨text, hencode, -⟩ := decodeFeedCursor_encodeFeedCursor depth (hid last hmem)
      simp only [hencode]
      split
      · exact ⟨_, rfl⟩
      · exact ⟨_, rfl⟩

end

end FeedgateFetcher
