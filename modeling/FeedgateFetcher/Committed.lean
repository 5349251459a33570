import FeedgateFetcher.Durability
import FeedgateFetcher.EntryStore
import FeedgateFetcher.Fetcher.Aftermath
import FeedgateFetcher.Logic.Relational
import FeedgateFetcher.Runs

/-!
# What a committed fetch writes

The writes of a `_process_feed` that is committed: the columns of its row, except those under which
the feed was registered, and one batch of entries.  The batch is what the transaction does to the
`entries` table, whatever view of it the fetch has read before.
-/

namespace FeedgateFetcher

open Python Logic

/-- The entries that `fetch_one` stores. -/
def storedBatch (up : Upstream) (cfg : Settings) (now : Datetime) (s : FetchState) :
    List ParsedEntry :=
  match (contact up cfg (prepare up now s).2).1 with
  | .ok (.document headers body) =>
    if documentRefusal up cfg s headers body = none then
      match parseFeed up.feedparser body with
      | .ok parsed => batchOf cfg s parsed
      | .error _ => []
    else []
  | _ => []

/-- The entries that `_process_feed` stores. -/
def processedBatch (up : Upstream) (cfg : Settings) (now : Datetime) (s : FetchState) :
    List ParsedEntry :=
  storedBatch up cfg now (load up s).2

section

variable {up : Upstream} {cfg : Settings} {now : Datetime} {weekly : Nat} {s s' t : FetchState}
  {headers : Headers} {body : Bytes}

/-- A document that is refused, though no statement has failed, leaves the entries alone. -/
theorem storeDocument_entries_of_refusal (h : Reached now s s') (hs : s.session.abortedBy = none)
    {code : ErrorCode} (hr : documentRefusal up cfg s headers body = some code)
    (ht : (storeDocument up cfg now headers body s').2.session.abortedBy = none) :
    (storeDocument up cfg now headers body s').2.session.entries = s'.session.entries := by
  unfold documentRefusal at hr
  cases hct : isNotAFeedContentType (headers.get "content-type".toList) with
  | true => rw [storeDocument_of_html hct]
  | false =>
      rw [hct, if_neg Bool.false_ne_true] at hr
      cases hp : parseFeed up.feedparser body with
      | error exc => rw [storeDocument_of_parse_error hct hp]
      | ok parsed =>
          rw [hp] at hr
          dsimp only at hr
          split at hr
          · cases hr
          · rename_i hacc
            have hs' : s'.session.abortedBy = none := by
              rw [h.session]
              exact hs
            obtain ⟨d, hst, hd⟩ := storeEntries_of_rejected now hs' (mt h.storeAccepted.mp hacc)
            rw [storeDocument_of_store_error hct hp hst] at ht
            exact absurd ht hd

/-- The batch is what a call does to the entries, unless a statement has failed. -/
theorem fetchOne_written (hp : prepare up now s = (.ok weekly, s'))
    (ht : (fetchOne up cfg now s).2.session.abortedBy = none) :
    (fetchOne up cfg now s).2.session.entries =
      (Session.upsertAll s.feed.id now up.dbNow (storedBatch up cfg now s) s.session).entries := by
  have hs := (prepare_ok hp).1
  have hframe : ∀ {γ : Type} (p : Session → γ) (run : Except Exc Flow × FetchState),
      p (conclude up cfg now weekly run).2.session = p run.2.session := fun p run ↦
    conclude_frame (p := fun t ↦ p t.session) (fun _ _ ↦ rfl) (fun _ _ ↦ rfl) run
  rcases hc : contact up cfg s' with ⟨r, s₂⟩
  have hreached := Reached.of_contact hp hc
  have hentries : s₂.session.entries = s.session.entries := by
    rw [hreached.session]
  rcases r with exc | headers | headers | ⟨headers, body⟩
  · have hbatch : storedBatch up cfg now s = [] := by
      rw [storedBatch, hp, hc]
    rw [hbatch, fetchOne_of_prepared hp, hframe Session.entries, attempt_eq, Act.bind_of_error hc]
    exact hentries
  · have hbatch : storedBatch up cfg now s = [] := by
      rw [storedBatch, hp, hc]
    rw [hbatch, fetchOne_of_prepared hp, hframe Session.entries, attempt_eq, Act.bind_of_ok hc]
    exact (keeps_handleNotModified (p := fun t ↦ t.session.entries) (fun _ _ ↦ rfl)
      (fun _ _ ↦ rfl) (fun _ _ ↦ rfl) headers s₂).trans hentries
  · have hbatch : storedBatch up cfg now s = [] := by
      rw [storedBatch, hp, hc]
    rw [hbatch, fetchOne_of_prepared hp, hframe Session.entries, attempt_eq, Act.bind_of_ok hc]
    exact (keeps_handleRateLimited (p := fun t ↦ t.session.entries) (fun _ _ ↦ rfl)
      (fun _ _ ↦ rfl) headers s₂).trans hentries
  · cases hr : documentRefusal up cfg s headers body with
    | none =>
        obtain ⟨parsed, -, hparsed, -, -⟩ := storeDocument_of_accepted now hreached hs hr
        have hbatch : storedBatch up cfg now s = batchOf cfg s parsed := by
          rw [storedBatch, hp, hc]
          dsimp only
          rw [if_pos hr, hparsed]
        rw [hbatch]
        exact fetchOne_entries hp hc hr hparsed
    | some code =>
        have hbatch : storedBatch up cfg now s = [] := by
          rw [storedBatch, hp, hc]
          dsimp only
          rw [if_neg (by rw [hr]; exact nofun)]
        rw [fetchOne_of_prepared hp, hframe Session.abortedBy, attempt_eq, Act.bind_of_ok hc] at ht
        rw [hbatch, fetchOne_of_prepared hp, hframe Session.entries, attempt_eq,
          Act.bind_of_ok hc]
        exact (storeDocument_entries_of_refusal hreached hs hr ht).trans hentries

/-- The row is loaded by one statement. -/
theorem load_ok (h : load up s = (.ok ⟨⟩, t)) :
    t = { s with session := { s.session with executed := s.session.executed + 1 } } := by
  obtain ⟨he, ht⟩ := onSession_eq h
  obtain ⟨-, -, -, hd⟩ := Session.execute_ok he
  rw [ht, hd]

/-- A flush leaves the entries alone, and is not sent in an aborted transaction. -/
theorem commit_ok {loaded : Feed} (h : commit up loaded s = (.ok ⟨⟩, t)) :
    t.feed = s.feed ∧ t.session.entries = s.session.entries ∧
      t.session.abortedBy = s.session.abortedBy := by
  unfold commit at h
  rw [Act.get_bind_apply] at h
  split at h
  · obtain ⟨he, ht⟩ := onSession_eq h
    obtain ⟨-, -, -, hd⟩ := Session.execute_ok he
    rw [ht, hd]
    exact ⟨rfl, rfl, rfl⟩
  · cases h
    exact ⟨rfl, rfl, rfl⟩

/-- A `_process_feed` that is committed has written its batch, and its row under the id and the
URL of the one it has loaded. -/
theorem processing_written (h : isDurable (processing up cfg now s) = true) :
    (processing up cfg now s).2.session.entries =
      (Session.upsertAll s.feed.id now up.dbNow (processedBatch up cfg now s) s.session).entries ∧
    (processing up cfg now s).2.feed.registration = s.feed.registration := by
  obtain ⟨s₁, s₂, hl, hf, hc⟩ := processing_of_durable h
  obtain ⟨hfeed, hentries, habort⟩ := commit_ok hc
  have hnone : s₂.session.abortedBy = none := by
    rw [← habort]
    exact Option.isNone_iff_eq_none.mp (Bool.and_eq_true_iff.mp h).2
  have hloaded := load_ok hl
  have hregistered := fetchOne_registration up cfg now s₁
  rw [hf] at hregistered
  rw [hfeed, hentries]
  constructor
  · rcases hp : prepare up now s₁ with ⟨exc | weekly, s'⟩
    · rw [fetchOne, Act.bind_of_error hp] at hf
      cases hf
    · have hwritten := fetchOne_written hp (by rw [hf]; exact hnone)
      rw [hf] at hwritten
      rw [hwritten, processedBatch, hl]
      dsimp only
      generalize storedBatch up cfg now s₁ = batch
      rw [hloaded]
      dsimp only [FetchState.feed]
      rw [upsertAll_executed]
  · rw [hregistered, hloaded]
    rfl

end

/-! ## The entries -/

theorem Entry.continues_receive (feedId : Int) (dbNow : Datetime) (p : ParsedEntry) (e : Entry) :
    e.Continues (e.receive feedId dbNow p) := by
  have h : Entry.Revises dbNow e (e.receive feedId dbNow p) :=
    (Entry.Revises.refl dbNow e).receive p
  exact ⟨h.id, Prod.ext h.feedId h.guid, h.fetchedAt⟩

/-- A batch inserts rows under the next ids of the sequence, and revises others. -/
theorem upsertAll_evolves (feedId : Int) (now dbNow : Datetime) (ps : List ParsedEntry)
    (s : Session) :
    Table.Evolves Entry.id Entry.Continues s.nextEntryId s.entries
      (Session.upsertAll feedId now dbNow ps s).nextEntryId
      (Session.upsertAll feedId now dbNow ps s).entries := by
  induction ps generalizing s with
  | nil => exact .refl Entry.Continues.refl _ _
  | cons p ps ih =>
      refine .trans (fun _ _ _ ↦ Entry.Continues.trans) ?_ (ih (upsertEntry feedId now dbNow p s))
      have hnext : s.nextEntryId < s.nextEntryId + 1 := Int.lt_succ _
      by_cases hp : s.Has feedId p
      · rw [Session.upsertEntry_of_has hp]
        exact .trans (fun _ _ _ ↦ Entry.Continues.trans)
          (.skip Entry.Continues.refl _ hnext.le)
          (.revise (fun e ↦ (Entry.continues_receive feedId dbNow p e).id)
            (fun e _ ↦ Entry.continues_receive feedId dbNow p e) _)
      · rw [Session.upsertEntry_of_not_has hp]
        exact .insert Entry.Continues.refl rfl hnext

/-- Whatever a batch inserts belongs to its feed. -/
theorem upsertAll_refers {feedId : Int} {now dbNow : Datetime} {ps : List ParsedEntry}
    {s : Session} {feeds : List Feed} (h : Table.Refers Entry.feedId Feed.id s.entries feeds)
    (hfeed : ∃ f ∈ feeds, f.id = feedId) :
    Table.Refers Entry.feedId Feed.id (Session.upsertAll feedId now dbNow ps s).entries feeds := by
  induction ps generalizing s with
  | nil => exact h
  | cons p ps ih =>
      rw [Session.upsertAll_cons]
      refine ih ?_
      by_cases hp : s.Has feedId p
      · rw [Session.upsertEntry_of_has hp]
        intro e' he'
        obtain ⟨e, he, rfl⟩ := List.mem_map.mp he'
        obtain ⟨f, hf, hid⟩ := h e he
        exact ⟨f, hf, hid.trans
          (congrArg Prod.fst (Entry.continues_receive feedId dbNow p e).key).symm⟩
      · rw [Session.upsertEntry_of_not_has hp]
        intro e he
        rcases List.mem_append.mp he with he | he
        · exact h e he
        · rw [List.mem_singleton.mp he]
          exact hfeed

end FeedgateFetcher
