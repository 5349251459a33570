import FeedgateFetcher.Api.Cursors
import FeedgateFetcher.Api.Entries
import FeedgateFetcher.CursorCodec
import FeedgateFetcher.HostileCursors
import FeedgateFetcher.Logic.Browsing
import FeedgateFetcher.Python.Calendar

/-!
# `GET /v1/entries` on the wire

`list_entries` with the texts of its cursors.  The driver hands out a publication date as an aware
`datetime` in UTC, which is what the encoder prints.  What the decoder makes of a text goes through
the driver again, as two parameters of the statement: `send` says what the server compares with.
-/

namespace FeedgateFetcher

open Python Logic Table

instance (n : Int) : Decidable (IsColumnId n) :=
  inferInstanceAs (Decidable (_ ∧ _))

namespace Wire

/-- How a request ends without a page. -/
inductive EntriesError where
  | http (exc : HttpException)
  /-- An exception that escapes from the encoder or the decoder. -/
  | codec (exc : Raised)
  | statement (exc : Exc)
deriving DecidableEq, Repr

/-- What the driver sends for the date and the id of a cursor. -/
abbrev Binding := Option PyDatetime × Int → Except Exc EntryCursor

/-- Dates of UTC, and ids of the column's type, get to the server as they are. -/
def Faithful (send : Binding) : Prop :=
  ∀ (publishedAt : Option Datetime) (id : Int), IsColumnId id →
    send (publishedAt.map Datetime.toUtc, id) = .ok ⟨publishedAt, id⟩

/-- `PaginatedEntries`; an `EntryResponse` has all columns of its row. -/
structure PaginatedEntries where
  items : List Entry
  nextCursor : Option Text := none
deriving DecidableEq, Repr

/-- The key that a cursor stands for in the statement. -/
def readCursor (depth : Nat) (send : Binding) :
    Option Text → Except EntriesError (Option EntryCursor)
  | none => .ok none
  | some text =>
    match decodeCursor depth text with
    | .error (.inl exc) => .error (.http exc)
    | .error (.inr exc) => .error (.codec exc)
    | .ok key => match send key with
      | .error exc => .error (.statement exc)
      | .ok c => .ok (some c)

/-- `_encode_cursor(last.published_at, last.id)`. -/
def spellCursor : Option EntryCursor → Except EntriesError (Option Text)
  | none => .ok none
  | some c => match encodeCursor (c.publishedAt.map Datetime.toUtc) c.id with
    | .error e => .error (.codec (.builtin e))
    | .ok text => .ok (some text)

/-- The response of a page. -/
def respond (page : FeedgateFetcher.PaginatedEntries) : Except EntriesError PaginatedEntries :=
  (spellCursor page.nextCursor).map fun nextCursor ↦ ⟨page.items, nextCursor⟩

/-- `list_entries`; a `limit` below 1 does not get here. -/
def listEntries (cfg : EntriesSettings) (depth : Nat) (send : Binding) (feedIds : Text)
    (cursor : Option Text) (limit : Option Nat) (table : List Entry) :
    Except EntriesError PaginatedEntries :=
  let limitValue := limit.getD cfg.apiEntriesDefaultLimit
  if cfg.apiEntriesMaxLimit < limitValue then
    .error (.http ⟨422, s!"limit must be less than or equal to {cfg.apiEntriesMaxLimit}".toList⟩)
  else match parseFeedIds feedIds with
    | .error exc => .error (.http exc)
    | .ok feedIdList =>
      if feedIdList.isEmpty then .error (.http ⟨400, "feed_ids is required".toList⟩)
      else if cfg.apiEntriesMaxFeedIds < feedIdList.length then
        .error (.http ⟨400, s!"feed_ids length exceeds {cfg.apiEntriesMaxFeedIds}".toList⟩)
      else match readCursor depth send cursor with
        | .error exc => .error exc
        | .ok key =>
          -- the driver sends no id that the column cannot hold
          if ∀ id ∈ feedIdList, IsColumnId id then
            respond (selectPage feedIdList key limitValue table)
          else .error (.statement .database)

/-! ## What the texts stand for -/

/-- The place that a cursor text stands for. -/
def place (depth : Nat) (send : Binding) (cursor : Option Text) :
    Except EntriesError (Option (WithTop Datetime ×ₗ Int)) :=
  (readCursor depth send cursor).map (Option.map EntryCursor.position)

theorem entryKey_toUtc (publishedAt : Option Datetime) {id : Int} (h : IsColumnId id) :
    EntryKey (publishedAt.map Datetime.toUtc, id) := by
  refine entryKey_iff.mpr ⟨?_, ?_⟩
  · have hlarge : (2147483648 : Nat) < 10 ^ Text.maxStrDigits :=
      lt_of_lt_of_le (by decide) (Nat.pow_le_pow_right (by decide) (by decide : 10 ≤ _))
    have hsmall : id.natAbs ≤ 2147483648 := by
      have hlower := h.1
      have hupper := h.2
      omega
    exact hsmall.trans_lt hlarge
  · intro t ht d hd
    obtain ⟨u, -, rfl⟩ := Option.mem_map.mp ht
    cases hd
    exact .inl rfl

/-- A cursor that is printed is read as the key that it was printed from. -/
theorem readCursor_spellCursor {send : Binding} (hsend : Faithful send) (depth : Nat)
    {c : EntryCursor} (h : IsColumnId c.id) :
    ∃ text, spellCursor (some c) = .ok (some text) ∧
      readCursor depth send (some text) = .ok (some c) := by
  obtain ⟨text, hencode, -, hdecode⟩ := decodeCursor_encodeCursor depth
    (entryKey_toUtc c.publishedAt h)
  refine ⟨text, ?_, ?_⟩
  · rw [spellCursor]
    dsimp only at hencode
    rw [hencode]
  · rw [readCursor, hdecode]
    dsimp only
    rw [hsend c.publishedAt c.id h]

section

variable {cfg : EntriesSettings} {depth : Nat} {send : Binding} {feedIds : Text}
  {cursor : Option Text} {limit : Option Nat} {ids : List Int} {table : List Entry}

theorem listEntries_of_valid (h : ValidRequest cfg feedIds limit ids)
    (hfeeds : ∀ id ∈ ids, IsColumnId id) {key : Option EntryCursor}
    (hcursor : readCursor depth send cursor = .ok key) :
    listEntries cfg depth send feedIds cursor limit table =
      respond (selectPage ids key (limit.getD cfg.apiEntriesDefaultLimit) table) := by
  unfold listEntries
  dsimp only
  rw [if_neg (not_lt.mpr h.limit), h.parsed]
  dsimp only
  rw [if_neg (mt List.isEmpty_iff.mp h.nonempty), if_neg (not_lt.mpr h.length), hcursor]
  exact if_pos hfeeds

/-- A page is for a request that is not turned down, from a cursor that can be read. -/
theorem listEntries_ok {p : PaginatedEntries}
    (h : listEntries cfg depth send feedIds cursor limit table = .ok p) :
    ∃ ids key, ValidRequest cfg feedIds limit ids ∧ (∀ id ∈ ids, IsColumnId id) ∧
      readCursor depth send cursor = .ok key := by
  unfold listEntries at h
  dsimp only at h
  split at h
  · cases h
  · rename_i hlimit
    cases hp : parseFeedIds feedIds with
    | error exc =>
        rw [hp] at h
        cases h
    | ok ids =>
        rw [hp] at h
        dsimp only at h
        split at h
        · cases h
        · rename_i hempty
          split at h
          · cases h
          · rename_i hlength
            cases hc : readCursor depth send cursor with
            | error exc =>
                rw [hc] at h
                cases h
            | ok key =>
                rw [hc] at h
                dsimp only at h
                split at h
                · rename_i hfeeds
                  exact ⟨ids, key, ⟨not_lt.mp hlimit, hp, mt List.isEmpty_iff.mpr hempty,
                    not_lt.mp hlength⟩, hfeeds, rfl⟩
                · cases h

/-- The cursor of a page is that of one of its entries. -/
theorem selectPage_cursor {key : Option EntryCursor} {n : Nat} {c : EntryCursor}
    (h : (selectPage ids key n table).nextCursor = some c) : ∃ e ∈ table, e.id = c.id := by
  have hcursor : ∃ last ∈ (selectPage ids key n table).items,
      c = ⟨last.publishedAt, last.id⟩ := by
    unfold selectPage at h ⊢
    dsimp only at h ⊢
    generalize List.take (n + 1) _ = rows at h ⊢
    split at h
    · obtain ⟨last, hlast, rfl⟩ := Option.map_eq_some_iff.mp h
      exact ⟨last, List.mem_of_getLast? hlast, rfl⟩
    · cases h
  obtain ⟨last, hlast, rfl⟩ := hcursor
  rw [show (selectPage ids key n table).items = _ from
    congrArg Prod.fst (selectPage_eq ids key n table)] at hlast
  have hrows := (mem_of_mem_page rfl hlast).1
  exact ⟨last, (List.mem_filter.mp hrows).1, rfl⟩

/-- A response shows a page of the entries, and its cursor is that of the page. -/
theorem listEntries_page (hsend : Faithful send) (hids : ∀ e ∈ table, IsColumnId e.id)
    (h : ValidRequest cfg feedIds limit ids) (hfeeds : ∀ id ∈ ids, IsColumnId id)
    {k : Option (WithTop Datetime ×ₗ Int)} (hcursor : place depth send cursor = .ok k) :
    ∃ p, listEntries cfg depth send feedIds cursor limit table = .ok p ∧
      let shown := page Entry.position (limit.getD cfg.apiEntriesDefaultLimit) k
        (ofFeeds ids table)
      p.items = shown.1 ∧ place depth send p.nextCursor = .ok shown.2 ∧
        p.nextCursor.isSome = shown.2.isSome := by
  obtain ⟨key, hkey, rfl⟩ : ∃ key, readCursor depth send cursor = .ok key ∧
      key.map EntryCursor.position = k := by
    unfold place at hcursor
    cases hr : readCursor depth send cursor with
    | error exc =>
        rw [hr] at hcursor
        cases hcursor
    | ok key =>
        rw [hr] at hcursor
        exact ⟨key, rfl, Except.ok.inj hcursor⟩
  rw [listEntries_of_valid h hfeeds hkey, respond, ← selectPage_eq]
  cases hnext : (selectPage ids key (limit.getD cfg.apiEntriesDefaultLimit) table).nextCursor with
  | none => exact ⟨_, rfl, rfl, rfl, rfl⟩
  | some c =>
      obtain ⟨e, he, hid⟩ := selectPage_cursor hnext
      obtain ⟨text, hspell, hread⟩ := readCursor_spellCursor hsend depth (hid ▸ hids e he)
      rw [hspell]
      refine ⟨_, rfl, rfl, ?_, rfl⟩
      rw [place, hread]
      rfl

end

end Wire

end FeedgateFetcher
