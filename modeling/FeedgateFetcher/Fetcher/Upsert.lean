import FeedgateFetcher.Fetcher.Errors
import FeedgateFetcher.Logic.Effect

/-!
# Database sessions and the entry upsert

One database transaction as the fetch pipeline uses it.  Any statement may be
rejected by the server; Postgres then aborts the transaction and rejects every
later statement in it until the rollback.  The session records which statement
aborted it.
-/

namespace FeedgateFetcher

open Python Logic

inductive Statement where
  | selectFeed
  | countWeeklyEntries
  | existsEntries
  | upsertEntry (entry : ParsedEntry)
  | updateFeed
deriving DecidableEq, Repr

/-- A transaction: the entries it sees, the sequence behind their ids, the number
of statements sent so far, and the statement that aborted it, if any. -/
structure Session where
  entries : List Entry
  nextEntryId : Int
  executed : Nat
  abortedBy : Option Statement
deriving DecidableEq, Repr

namespace Session

/-- A transaction that has just begun. -/
def start (entries : List Entry) (nextEntryId : Int) : Session := ⟨entries, nextEntryId, 0, none⟩

variable {α : Type}

/-- `session.execute`, on a server that rejects the `n`-th statement when `fails n`. -/
def execute (fails : Nat → Bool) (statement : Statement) (run : Session → α × Session) :
    Act Session Exc α := fun s ↦
  match s.abortedBy with
  | some _ => (.error .database, s)
  | none =>
    if fails s.executed then
      (.error .database, { s with executed := s.executed + 1, abortedBy := some statement })
    else
      (.ok (run s).1, { (run s).2 with executed := s.executed + 1 })

variable {fails : Nat → Bool} {statement : Statement} {run : Session → α × Session}
  {s t : Session}

/-- A statement that returns was not sent in an aborted transaction. -/
theorem execute_ok {a : α} (h : execute fails statement run s = (.ok a, t)) :
    s.abortedBy = none ∧ fails s.executed = false ∧ a = (run s).1 ∧
      t = { (run s).2 with executed := s.executed + 1 } := by
  unfold execute at h
  split at h
  · cases h
  · split at h
    · cases h
    · rename_i ha hf
      cases h
      exact ⟨ha, by simpa using hf, rfl, rfl⟩

/-- A statement that raises leaves the transaction aborted and its tables alone. -/
theorem execute_error {exc : Exc} (h : execute fails statement run s = (.error exc, t)) :
    exc = .database ∧ t.entries = s.entries ∧
      t.abortedBy = some (s.abortedBy.getD statement) := by
  unfold execute at h
  split at h
  · rename_i st ha
    cases h
    exact ⟨rfl, rfl, by rw [ha]; rfl⟩
  · rename_i ha
    split at h
    · cases h
      exact ⟨rfl, rfl, by rw [ha]; rfl⟩
    · cases h

/-- The number of entries of the feed fetched since the cutoff. -/
def weeklyEntryCount (feedId : Int) (cutoff : Datetime) (s : Session) : Nat :=
  s.entries.countP fun e ↦ decide (e.feedId = feedId ∧ cutoff ≤ e.fetchedAt)

def hasEntries (feedId : Int) (s : Session) : Bool := s.entries.any fun e ↦ e.feedId = feedId

end Session

/-- The `WHERE` of the conflict branch: some content field differs, null being a
value like any other. -/
def Entry.contentDiffers (e : Entry) (p : ParsedEntry) : Prop :=
  e.url ≠ p.url ∨ e.title ≠ p.title ∨ e.content ≠ p.content ∨ e.author ≠ p.author ∨
    e.publishedAt ≠ p.publishedAt

instance (e : Entry) (p : ParsedEntry) : Decidable (e.contentDiffers p) :=
  inferInstanceAs (Decidable (_ ∨ _))

/-- `excluded`: the row proposed for insertion. -/
def ParsedEntry.toRow (p : ParsedEntry) (id feedId : Int) (now : Datetime) : Entry where
  id := id
  feedId := feedId
  guid := p.guid
  url := p.url
  title := p.title
  content := p.content
  author := p.author
  publishedAt := p.publishedAt
  fetchedAt := now
  contentUpdatedAt := now

/-- The `SET` of the conflict branch; `func.now()` is the clock of the transaction. -/
def Entry.overwrite (e : Entry) (p : ParsedEntry) (dbNow : Datetime) : Entry :=
  { e with
    url := p.url
    title := p.title
    content := p.content
    author := p.author
    publishedAt := p.publishedAt
    contentUpdatedAt := dbNow }

/-- `INSERT … ON CONFLICT (feed_id, guid) DO UPDATE … WHERE …`.  The sequence
advances whether or not the row is inserted. -/
def upsertEntry (feedId : Int) (now dbNow : Datetime) (p : ParsedEntry) (s : Session) : Session :=
  let isConflict (e : Entry) : Prop := e.feedId = feedId ∧ e.guid = p.guid
  let s' := { s with nextEntryId := s.nextEntryId + 1 }
  if s.entries.any fun e ↦ e.feedId = feedId ∧ e.guid = p.guid then
    { s' with
      entries := s.entries.map fun e ↦
        if isConflict e ∧ e.contentDiffers p then e.overwrite p dbNow else e }
  else
    { s' with entries := s.entries ++ [p.toRow s.nextEntryId feedId now] }

/-- `upsert_entries`. -/
def upsertEntries (fails : Nat → Bool) (feedId : Int) (now dbNow : Datetime) :
    List ParsedEntry → Act Session Exc PUnit
  | [] => pure ⟨⟩
  | p :: ps => do
    Session.execute fails (.upsertEntry p) fun s ↦ (⟨⟩, upsertEntry feedId now dbNow p s)
    upsertEntries fails feedId now dbNow ps

end FeedgateFetcher
