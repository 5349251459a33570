import FeedgateFetcher.Api.EntryList
import FeedgateFetcher.EntryPages

/-!
# Walks through the entries, over the wire

A client that hands the texts of `next_cursor` back, with a limit of its own for every page and
entries coming, going and being edited between its requests.
-/

namespace FeedgateFetcher

open Python Logic Table

namespace Wire

/-- A request for a page: the limit that it asks for, and the table that its statement sees. -/
structure EntriesRequest where
  limit : Option Nat
  table : List Entry
  keyed : Keyed Entry.id table
  ids : ∀ e ∈ table, IsColumnId e.id

section

variable (cfg : EntriesSettings) (depth : Nat) (send : Binding) (feedIds : Text)

/-- The pages from a cursor on, as far as the client has followed them, with the `next_cursor` of
the last one. -/
inductive EntryWalk : Option Text → List EntriesRequest → List (List Entry) → Option Text → Prop
  | single {cursor next : Option Text} {req : EntriesRequest} {items : List Entry} :
    listEntries cfg depth send feedIds cursor req.limit req.table = .ok ⟨items, next⟩ →
    EntryWalk cursor [req] [items] next
  | cons {cursor next : Option Text} {req : EntriesRequest} {items : List Entry} {text : Text}
    {reqs : List EntriesRequest} {pages : List (List Entry)} :
    listEntries cfg depth send feedIds cursor req.limit req.table = .ok ⟨items, some text⟩ →
    EntryWalk (some text) reqs pages next → EntryWalk cursor (req :: reqs) (items :: pages) next

end

/-- A request as one for a page of the entries of these feeds. -/
def EntriesRequest.browse (cfg : EntriesSettings) (ids : List Int) (req : EntriesRequest) :
    Table.Request Entry :=
  (req.limit.getD cfg.apiEntriesDefaultLimit, ofFeeds ids req.table)

section

variable {cfg : EntriesSettings} {depth : Nat} {send : Binding} {feedIds : Text} {ids : List Int}
  {cursor next : Option Text} {reqs : List EntriesRequest} {pages : List (List Entry)}
  {k : Option (WithTop Datetime ×ₗ Int)}

theorem EntriesRequest.browse_keyed (req : EntriesRequest) :
    Keyed Entry.position (req.browse cfg ids).2 :=
  keyed_position (keyed_ofFeeds req.keyed ids)

/-- One request shows a page of the ranking. -/
theorem EntriesRequest.shows (hsend : Faithful send) (hids : parseFeedIds feedIds = .ok ids)
    {req : EntriesRequest} {p : PaginatedEntries} (hcursor : place depth send cursor = .ok k)
    (h : listEntries cfg depth send feedIds cursor req.limit req.table = .ok p) :
    ∃ n, page Entry.position (req.browse cfg ids).1 k (req.browse cfg ids).2 = (p.items, n) ∧
      place depth send p.nextCursor = .ok n ∧ p.nextCursor.isSome = n.isSome := by
  obtain ⟨ids', -, hvalid, hfeeds, -⟩ := listEntries_ok h
  obtain rfl : ids = ids' := Except.ok.inj (hids.symm.trans hvalid.parsed)
  obtain ⟨p', hp', hitems, hnext, hsome⟩ := listEntries_page hsend req.ids hvalid hfeeds hcursor
  obtain rfl : p = p' := Except.ok.inj (h.symm.trans hp')
  exact ⟨_, Prod.ext hitems.symm rfl, hnext, hsome⟩

/-- The ids of a walk are those of the column. -/
theorem EntryWalk.columnIds (hids : parseFeedIds feedIds = .ok ids)
    (h : EntryWalk cfg depth send feedIds cursor reqs pages next) : ∀ id ∈ ids, IsColumnId id := by
  cases h with
  | single hpage =>
      obtain ⟨ids', -, hvalid, hfeeds, -⟩ := listEntries_ok hpage
      exact Except.ok.inj (hids.symm.trans hvalid.parsed) ▸ hfeeds
  | cons hpage _ =>
      obtain ⟨ids', -, hvalid, hfeeds, -⟩ := listEntries_ok hpage
      exact Except.ok.inj (hids.symm.trans hvalid.parsed) ▸ hfeeds

/-- Following the texts is browsing the entries of the feeds, by their places. -/
theorem EntryWalk.browses (hsend : Faithful send) (hids : parseFeedIds feedIds = .ok ids)
    (h : EntryWalk cfg depth send feedIds cursor reqs pages next)
    (hcursor : place depth send cursor = .ok k) :
    ∃ n, Browses Entry.position k (reqs.map (EntriesRequest.browse cfg ids)) pages n ∧
      place depth send next = .ok n ∧ next.isSome = n.isSome := by
  induction h generalizing k with
  | single hpage =>
      obtain ⟨n, hshows, hnext, hsome⟩ := EntriesRequest.shows hsend hids hcursor hpage
      exact ⟨n, .single hshows, hnext, hsome⟩
  | cons hpage _ ih =>
      obtain ⟨n, hshows, hnext, hsome⟩ := EntriesRequest.shows hsend hids hcursor hpage
      obtain ⟨c, hc⟩ := Option.isSome_iff_exists.mp hsome.symm
      obtain ⟨last, hbrowses, hlast, hlast'⟩ := ih hnext
      exact ⟨last, .cons (hc ▸ hshows) (hc ▸ hbrowses), hlast, hlast'⟩

/-- Whatever is shown has been shown by some request. -/
theorem exists_request {P : EntriesRequest → Entry → Prop} {e : Entry}
    (h : List.Forall₂ (fun req items ↦ ∀ e ∈ items, P req e) reqs pages)
    (he : e ∈ pages.flatten) : ∃ req ∈ reqs, P req e := by
  induction h with
  | nil => cases he
  | cons hpage _ ih =>
      rcases List.mem_append.mp he with he | he
      · exact ⟨_, List.mem_cons_self, hpage e he⟩
      · obtain ⟨req, hreq, hP⟩ := ih he
        exact ⟨req, List.mem_cons_of_mem _ hreq, hP⟩

/-- What is shown has been in the table that its request met. -/
theorem EntryWalk.shown (hsend : Faithful send) (hids : parseFeedIds feedIds = .ok ids)
    (h : EntryWalk cfg depth send feedIds none reqs pages next) :
    List.Forall₂ (fun (req : EntriesRequest) items ↦ ∀ e ∈ items,
      e ∈ req.table ∧ e.feedId ∈ ids) reqs pages := by
  obtain ⟨n, hbrowses, -, -⟩ := h.browses (k := none) hsend hids rfl
  refine (List.forall₂_map_left_iff.mp hbrowses.forall₂_mem).imp ?_
  intro req items hitems e he
  obtain ⟨htable, hfeed⟩ := List.mem_filter.mp (hitems e he)
  exact ⟨htable, of_decide_eq_true hfeed⟩

/-- What stays in its place is shown exactly once. -/
theorem EntryWalk.shown_once (hsend : Faithful send) (hids : parseFeedIds feedIds = .ok ids)
    (h : EntryWalk cfg depth send feedIds none reqs pages none)
    (hlimit : ∀ req ∈ reqs, 1 ≤ req.limit.getD cfg.apiEntriesDefaultLimit) {e : Entry}
    (hfeed : e.feedId ∈ ids) (hstays : ∀ req ∈ reqs, Stays e req.table) :
    (pages.flatten.countP fun f ↦ f.id = e.id) = 1 := by
  obtain ⟨n, hbrowses, -, hsome⟩ := h.browses (k := none) hsend hids rfl
  have hn : n = none := by
    cases n with
    | none => rfl
    | some c => cases hsome
  have honce := hbrowses.countP_eq_one (k := e.position) hn
    (fun request hrequest ↦ by
      obtain ⟨req, -, rfl⟩ := List.mem_map.mp hrequest
      exact req.browse_keyed)
    (fun request hrequest ↦ by
      obtain ⟨req, hreq, rfl⟩ := List.mem_map.mp hrequest
      exact hlimit req hreq)
    (fun request hrequest ↦ by
      obtain ⟨req, hreq, rfl⟩ := List.mem_map.mp hrequest
      obtain ⟨f, hf, hfeed', hpub, hid⟩ := hstays req hreq
      refine ⟨f, List.mem_filter.mpr ⟨hf, decide_eq_true (hfeed' ▸ hfeed)⟩, ?_⟩
      rw [Entry.position, hpub, hid]
      rfl) nofun
  rw [← honce]
  refine List.countP_congr fun f hf ↦ ?_
  simp only [decide_eq_true_eq]
  constructor
  · intro hfid
    obtain ⟨req, hreq, hmem, -⟩ := exists_request (h.shown hsend hids) hf
    obtain ⟨g, hg, -, hpub, hgid⟩ := hstays req hreq
    rw [req.keyed.eq_of_key hmem hg (hfid.trans hgid.symm), Entry.position, hpub, hgid]
    rfl
  · exact fun hplace ↦ congrArg (fun k ↦ (ofLex k).2) hplace

/-- On a walk from the first page, whatever happens to the table, the entries that are shown are in
one strict order, each has been in the table that its request met, and every next request is
answered; an entry that stays in its place is shown exactly once by the time there is no next
page. -/
theorem entries_browsed (hsend : Faithful send) (hids : parseFeedIds feedIds = .ok ids)
    (h : EntryWalk cfg depth send feedIds none reqs pages next) :
    (pages.flatten.Pairwise fun e f ↦ f.position < e.position) ∧
      List.Forall₂ (fun (req : EntriesRequest) items ↦ ∀ e ∈ items,
        e ∈ req.table ∧ e.feedId ∈ ids) reqs pages ∧
      (∀ req : EntriesRequest, ValidRequest cfg feedIds req.limit ids →
        ∃ p, listEntries cfg depth send feedIds next req.limit req.table = .ok p) ∧
      (next = none → (∀ req ∈ reqs, 1 ≤ req.limit.getD cfg.apiEntriesDefaultLimit) →
        ∀ e : Entry, e.feedId ∈ ids → (∀ req ∈ reqs, Stays e req.table) →
          (pages.flatten.countP fun f ↦ f.id = e.id) = 1) := by
  obtain ⟨n, hbrowses, hnext, -⟩ := h.browses (k := none) hsend hids rfl
  have hkeyed : ∀ request ∈ reqs.map (EntriesRequest.browse cfg ids),
      Keyed Entry.position request.2 := by
    intro request hrequest
    obtain ⟨req, -, rfl⟩ := List.mem_map.mp hrequest
    exact req.browse_keyed
  refine ⟨(hbrowses.pairwise hkeyed).2, h.shown hsend hids, ?_, ?_⟩
  · intro req hvalid
    obtain ⟨p, hp, -⟩ := listEntries_page hsend req.ids hvalid (h.columnIds hids) hnext
    exact ⟨p, hp⟩
  · rintro rfl hlimit e hfeed hstays
    exact h.shown_once hsend hids hlimit hfeed hstays

end

/-- A driver that sends the instant of an aware date, and no naive one. -/
def sendInstant : Binding := fun key ↦
  match key.1 with
  | none => .ok ⟨none, key.2⟩
  | some t => match t.utcoffset with
    | none => .error .database
    | some offset => match Datetime.ofMicros (t.wallMicros - offset) with
      | .error e => .error (.builtin e)
      | .ok instant => .ok ⟨some instant, key.2⟩

theorem sendInstant_faithful : Faithful sendInstant := by
  intro publishedAt id _
  cases publishedAt with
  | none => rfl
  | some t =>
      obtain ⟨offset, hoffset, hinstant⟩ := t.denotes_toUtc
      cases hoffset
      have hsent : Datetime.ofMicros (t.toUtc.wallMicros - 0) = .ok t :=
        Datetime.ofMicros_eq_ok_iff.mpr hinstant.symm
      show (match Datetime.ofMicros (t.toUtc.wallMicros - 0) with
        | .error e => _
        | .ok instant => _) = _
      rw [hsent]

/-- Requests with the limits 1, 1 and 5: the first entry is deleted after the first page, and one
that sorts before it comes in; after the second page the third entry loses its date. -/
def editedRequests : List EntriesRequest :=
  [⟨some 1, tiedEntries, by decide +kernel, by decide +kernel⟩,
    ⟨some 1, [publishedEntry 1 (some .year2000), publishedEntry 3 (some .year2000),
      publishedEntry 4 none], by decide +kernel, by decide +kernel⟩,
    ⟨some 5, [publishedEntry 1 (some .year2000), publishedEntry 3 none, publishedEntry 4 none],
      by decide +kernel, by decide +kernel⟩]

/-- The entry that stays where it is comes on the last page. -/
theorem editedRequests_browsed :
    ([[publishedEntry 2 none], [publishedEntry 3 (some .year2000)],
      [publishedEntry 1 (some .year2000)]].flatten.countP fun f ↦ f.id = 1) = 1 := by
  have hfirst : listEntries {} 1 sendInstant "1".toList none (some 1) tiedEntries =
      .ok ⟨[publishedEntry 2 none], some "eyJwIjpudWxsLCJpIjoyfQ".toList⟩ := by
    decide +kernel
  have hsecond : listEntries {} 1 sendInstant "1".toList
      (some "eyJwIjpudWxsLCJpIjoyfQ".toList) (some 1)
      [publishedEntry 1 (some .year2000), publishedEntry 3 (some .year2000),
        publishedEntry 4 none] =
        .ok ⟨[publishedEntry 3 (some .year2000)],
          some "eyJwIjoiMjAwMC0wMS0wMVQwMDowMDowMCswMDowMCIsImkiOjN9".toList⟩ := by
    decide +kernel
  have hwalk : EntryWalk {} 1 sendInstant "1".toList none editedRequests
      [[publishedEntry 2 none], [publishedEntry 3 (some .year2000)],
        [publishedEntry 1 (some .year2000)]] none :=
    .cons hfirst (.cons hsecond (.single (by decide +kernel)))
  have hids : parseFeedIds "1".toList = .ok [1] := by decide
  have hstays : ∀ req ∈ editedRequests,
      Stays (publishedEntry 1 (some .year2000)) req.table := by
    unfold Stays
    decide +kernel
  exact (entries_browsed sendInstant_faithful hids hwalk).2.2.2 rfl (by decide)
    (publishedEntry 1 (some .year2000)) (by decide) hstays

end Wire

end FeedgateFetcher
