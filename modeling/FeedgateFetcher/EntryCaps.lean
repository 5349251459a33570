import Mathlib.Order.WithBot
import FeedgateFetcher.Fetcher.Aftermath
import FeedgateFetcher.Logic.Ranking

/-!
# The caps on the entries of a fetch

Both caps cut the parsed list where the document happens to end it, so what they
keep are the first entries of the document and not the most recent ones.
-/

namespace FeedgateFetcher

open Python Logic Table

/-! ## The effective cap -/

/-- The number of entries that `entries[:cap]` leaves of `n`, when the cap applies. -/
def cappedLength (cap : Int) (n : Nat) : Nat :=
  if cap < n then (if 0 ≤ cap then cap.toNat else n - (-cap).toNat) else n

/-- The number of entries that both caps together leave of `n`. -/
def effectiveCap (cfg : Settings) (hasExistingEntries : Bool) (n : Nat) : Nat :=
  let m := cappedLength cfg.fetchMaxEntriesPerFetch n
  if hasExistingEntries then m else cappedLength cfg.fetchMaxEntriesInitial m

theorem cappedLength_of_nonneg {cap : Int} (h : 0 ≤ cap) (n : Nat) :
    cappedLength cap n = min cap.toNat n := by
  unfold cappedLength
  split <;> omega

theorem sliceTo_capped {α : Type} (cap : Int) (entries : List α) :
    (if cap < entries.length then Text.sliceTo cap entries else entries) =
      entries.take (cappedLength cap entries.length) := by
  unfold cappedLength Text.sliceTo
  by_cases h : cap < entries.length
  · rw [if_pos h, if_pos h]
    split <;> rfl
  · rw [if_neg h, if_neg h, List.take_length]

theorem cappedLength_le (cap : Int) (n : Nat) : cappedLength cap n ≤ n := by
  unfold cappedLength
  split
  · split <;> omega
  · exact le_refl n

theorem effectiveCap_le (cfg : Settings) (hasExistingEntries : Bool) (n : Nat) :
    effectiveCap cfg hasExistingEntries n ≤ n := by
  cases hasExistingEntries with
  | true => exact cappedLength_le _ _
  | false => exact (cappedLength_le _ _).trans (cappedLength_le _ _)

/-- The caps cut the document. -/
theorem capEntries_eq_take (cfg : Settings) (hasExistingEntries : Bool)
    (entries : List ParsedEntry) :
    capEntries cfg hasExistingEntries entries =
      entries.take (effectiveCap cfg hasExistingEntries entries.length) := by
  unfold capEntries effectiveCap
  rw [sliceTo_capped]
  cases hasExistingEntries with
  | true => rfl
  | false =>
      have hle := cappedLength_le cfg.fetchMaxEntriesPerFetch entries.length
      have h := sliceTo_capped cfg.fetchMaxEntriesInitial
        (entries.take (cappedLength cfg.fetchMaxEntriesPerFetch entries.length))
      have hlen : (entries.take (cappedLength cfg.fetchMaxEntriesPerFetch entries.length)).length =
          cappedLength cfg.fetchMaxEntriesPerFetch entries.length :=
        List.length_take_of_le hle
      rw [hlen] at h
      simp only [Bool.not_false, Bool.true_and, decide_eq_true_eq, hlen, Bool.false_eq_true,
        if_false]
      rw [h, List.take_take, min_eq_left (cappedLength_le _ _)]

/-! ## The most recent entries -/

/-- The date of an entry, an entry without a date being older than all others. -/
def ParsedEntry.publication (p : ParsedEntry) : WithBot Datetime := p.publishedAt

/-- Every entry has a date, and no two have the same. -/
structure Dated (entries : List ParsedEntry) : Prop where
  present : ∀ p ∈ entries, p.publishedAt ≠ none
  distinct : Keyed ParsedEntry.publication entries

/-- What is kept of the entries are the `k` most recent ones. -/
def KeepsNewest (k : Nat) (entries kept : List ParsedEntry) : Prop :=
  kept.Perm (leading ParsedEntry.publication k entries)

theorem capEntries_keepsNewest_iff (cfg : Settings) (hasExistingEntries : Bool)
    {entries : List ParsedEntry} (hd : Dated entries) :
    KeepsNewest (effectiveCap cfg hasExistingEntries entries.length) entries
      (capEntries cfg hasExistingEntries entries) ↔
        LeadsAt ParsedEntry.publication (effectiveCap cfg hasExistingEntries entries.length)
          entries := by
  rw [capEntries_eq_take]
  exact hd.distinct.take_perm_leading_iff

/-- Only a document that is sorted is safe with all settings. -/
theorem capEntries_keepsNewest_always_iff {entries : List ParsedEntry} (hd : Dated entries) :
    (∀ (cfg : Settings) (hasExistingEntries : Bool),
      KeepsNewest (effectiveCap cfg hasExistingEntries entries.length) entries
        (capEntries cfg hasExistingEntries entries)) ↔
      entries.Pairwise fun p q ↦ q.publication < p.publication := by
  constructor
  · intro h
    refine pairwise_iff_leadsAt.mpr fun k hk ↦ ?_
    have hcap : effectiveCap { fetchMaxEntriesPerFetch := k } true entries.length = k := by
      rw [effectiveCap, if_pos rfl, cappedLength_of_nonneg (Int.natCast_nonneg k)]
      exact min_eq_left hk
    have := (capEntries_keepsNewest_iff _ _ hd).mp (h { fetchMaxEntriesPerFetch := k } true)
    rwa [hcap] at this
  · intro h cfg hasExistingEntries
    exact (capEntries_keepsNewest_iff _ _ hd).mpr
      (pairwise_iff_leadsAt.mp h _ (effectiveCap_le cfg hasExistingEntries _))

/-- The entries that a call stores are the capped ones, and these are the most recent entries
exactly when no entry of the document after the cap is newer than one before it.  Only a document
that is sorted newest first is safe with every setting. -/
theorem entryCaps_keep_newest_iff (entries : List ParsedEntry) (hd : Dated entries) :
    (∀ (up : Upstream) (cfg : Settings) (now : Datetime) (weekly : Nat) (s s₁ s' : FetchState)
      (headers : Headers) (body : Bytes) (parsed : ParsedFeed),
      prepare up now s = (.ok weekly, s₁) →
      contact up cfg s₁ = (.ok (.document headers body), s') →
      documentRefusal up cfg s headers body = none →
      parseFeed up.feedparser body = .ok parsed → parsed.entries = entries →
        (fetchOne up cfg now s).2.session.entries = (Session.upsertAll s.feed.id now up.dbNow
          (capEntries cfg (s.session.hasEntries s.feed.id) entries) s.session).entries) ∧
    (∀ (cfg : Settings) (hasExistingEntries : Bool),
      KeepsNewest (effectiveCap cfg hasExistingEntries entries.length) entries
        (capEntries cfg hasExistingEntries entries) ↔
          LeadsAt ParsedEntry.publication (effectiveCap cfg hasExistingEntries entries.length)
            entries) ∧
    ((∀ (cfg : Settings) (hasExistingEntries : Bool),
      KeepsNewest (effectiveCap cfg hasExistingEntries entries.length) entries
        (capEntries cfg hasExistingEntries entries)) ↔
      entries.Pairwise fun p q ↦ q.publication < p.publication) := by
  refine ⟨?_, ?_, ?_⟩
  · intro up cfg now weekly s s₁ s' headers body parsed hp hc hr hparsed hentries
    rw [← hentries]
    exact fetchOne_entries hp hc hr hparsed
  · intro cfg hasExistingEntries
    exact capEntries_keepsNewest_iff cfg hasExistingEntries hd
  · exact capEntries_keepsNewest_always_iff hd

/-- An item with this guid and date. -/
def item (guid : String) (date : StructTime) : FeedParserEntry :=
  { id := some guid.toList, publishedParsed := some date }

/-- An origin that serves the feed with these items. -/
def serving (items : List FeedParserEntry) : Upstream := .delivering 200 [] { entries := items }

def oldItem : FeedParserEntry := item "old" ⟨2000, 1, 1, 0, 0, 0⟩

def newItem : FeedParserEntry := item "new" ⟨2001, 1, 1, 0, 0, 0⟩

/-- The parsed entries of the items. -/
def parsedItems (items : List FeedParserEntry) : List ParsedEntry :=
  ((items.mapM extractEntry).toOption).getD []

/-- Of a document with the older item first, a new feed with room for one entry keeps the older. -/
theorem oldestFirst_dropped :
    Dated (parsedItems [oldItem, newItem]) ∧
    (fetchOne (serving [oldItem, newItem]) { fetchMaxEntriesInitial := 1 } .year2000
      .firstFetch).2.session.entries.map Entry.guid = ["old".toList] ∧
    ¬KeepsNewest (effectiveCap { fetchMaxEntriesInitial := 1 } false 2)
      (parsedItems [oldItem, newItem])
      (capEntries { fetchMaxEntriesInitial := 1 } false (parsedItems [oldItem, newItem])) := by
  have hd : Dated (parsedItems [oldItem, newItem]) := ⟨by decide +kernel, by decide +kernel⟩
  refine ⟨hd, by decide +kernel, ?_⟩
  refine mt (capEntries_keepsNewest_iff { fetchMaxEntriesInitial := 1 } false hd).mp ?_
  decide +kernel

/-- With the newer item first it keeps the newer. -/
theorem newestFirst_kept :
    (fetchOne (serving [newItem, oldItem]) { fetchMaxEntriesInitial := 1 } .year2000
      .firstFetch).2.session.entries.map Entry.guid = ["new".toList] ∧
    KeepsNewest 1 (parsedItems [newItem, oldItem])
      (capEntries { fetchMaxEntriesInitial := 1 } false (parsedItems [newItem, oldItem])) := by
  have hd : Dated (parsedItems [newItem, oldItem]) := ⟨by decide +kernel, by decide +kernel⟩
  constructor
  · have hprepare : (prepare (serving [newItem, oldItem]) .year2000 .firstFetch).1 = .ok 0 := by
      decide +kernel
    have hcontact : (contact (serving [newItem, oldItem]) { fetchMaxEntriesInitial := 1 }
        (prepare (serving [newItem, oldItem]) .year2000 .firstFetch).2).1 =
          .ok (.document [] feedDocument) := by
      decide +kernel
    have hparsed : parseFeed (serving [newItem, oldItem]).feedparser feedDocument =
        .ok ⟨none, none, parsedItems [newItem, oldItem]⟩ := by
      decide +kernel
    rw [(entryCaps_keep_newest_iff _ hd).1 _ _ _ 0 _ _ _ [] feedDocument _ (Prod.ext hprepare rfl)
      (Prod.ext hcontact rfl) (by decide +kernel) hparsed rfl]
    decide +kernel
  · exact ((entryCaps_keep_newest_iff _ hd).2.1 { fetchMaxEntriesInitial := 1 } false).mpr
      (by decide +kernel)

end FeedgateFetcher
