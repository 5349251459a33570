import FeedgateFetcher.Api.FeedList
import FeedgateFetcher.Logic.Browsing

/-!
# Walks through the feeds

A client that follows `next_cursor`, with feeds coming, going and changing their status
between its requests.
-/

namespace FeedgateFetcher

open Python Logic Table

/-- A request for a page: the limit that it asks for, and the table that its statement sees. -/
structure FeedsRequest where
  limit : Option Int
  table : List Feed
  keyed : Keyed Feed.id table

/-- The pages from a cursor on, as far as the client has followed them, with the `next_cursor` of
the last one. -/
inductive FeedWalk (cfg : FeedsSettings) (depth : Nat) (statusFilter : Option FeedStatus) :
    Option Text → List FeedsRequest → List (List FeedResponse) → Option Text → Prop
  | single {cursor next : Option Text} {req : FeedsRequest} {items : List FeedResponse} :
    listFeeds cfg depth cursor req.limit statusFilter req.table = .ok ⟨items, next⟩ →
    FeedWalk cfg depth statusFilter cursor [req] [items] next
  | cons {cursor next : Option Text} {req : FeedsRequest} {items : List FeedResponse}
    {text : Text} {reqs : List FeedsRequest} {pages : List (List FeedResponse)} :
    listFeeds cfg depth cursor req.limit statusFilter req.table = .ok ⟨items, some text⟩ →
    FeedWalk cfg depth statusFilter (some text) reqs pages next →
    FeedWalk cfg depth statusFilter cursor (req :: reqs) (items :: pages) next

/-- A request as one for a page of the feeds that match. -/
def FeedsRequest.browse (cfg : FeedsSettings) (statusFilter : Option FeedStatus)
    (req : FeedsRequest) : Request Feed :=
  ((clampLimit cfg req.limit).toNat, req.table.filter (matchesStatus statusFilter))

section

variable {cfg : FeedsSettings} {depth : Nat} {statusFilter : Option FeedStatus}
  {cursor next : Option Text} {reqs : List FeedsRequest} {pages : List (List FeedResponse)}

/-- Following cursors is browsing the feeds that match, by id. -/
theorem FeedWalk.browses (h : FeedWalk cfg depth statusFilter cursor reqs pages next)
    {c : Option Intᵒᵈ} (hcursor : cursorPlace depth cursor = .ok c) :
    ∃ (shown : List (List Feed)) (n : Option Intᵒᵈ),
      Browses Feed.place c (reqs.map (FeedsRequest.browse cfg statusFilter)) shown n ∧
        pages = shown.map (List.map FeedResponse.ofFeed) ∧ cursorPlace depth next = .ok n ∧
        next.isSome = n.isSome := by
  induction h generalizing c with
  | @single cursor next req items hpage =>
      obtain ⟨hitems, hnext, hsome⟩ := listFeeds_page hcursor hpage
      exact ⟨[_], _, .single rfl, congrArg ([·]) hitems, hnext, hsome⟩
  | @cons cursor next req items text reqs pages hpage _ ih =>
      obtain ⟨hitems, hnext, hsome⟩ := listFeeds_page hcursor hpage
      obtain ⟨c', hc'⟩ := Option.isSome_iff_exists.mp hsome.symm
      obtain ⟨shown, n, hbrowses, hpages, hlast, hlast'⟩ := ih hnext
      refine ⟨_ :: shown, n, .cons (Prod.ext rfl hc') (hc' ▸ hbrowses), ?_, hlast, hlast'⟩
      rw [List.map_cons, hpages]
      exact congrArg (· :: shown.map (List.map FeedResponse.ofFeed)) hitems

theorem keyed_place {table : List Feed} (h : Keyed Feed.id table) : Keyed Feed.place table := by
  have hmap : ((table.map Feed.place).map OrderDual.ofDual).Nodup := by
    rw [List.map_map]
    exact h
  exact List.Nodup.of_map _ hmap

theorem FeedsRequest.browse_keyed (req : FeedsRequest) :
    Keyed Feed.place (req.browse cfg statusFilter).2 :=
  (keyed_place req.keyed).sublist List.filter_sublist

/-- The next request of a walk is answered, as is the first one. -/
theorem FeedWalk.continues (h : FeedWalk cfg depth statusFilter cursor reqs pages next)
    {c : Option Intᵒᵈ} (hcursor : cursorPlace depth cursor = .ok c) (req : FeedsRequest)
    (hid : ∀ f ∈ req.table, PrintableId f.id) :
    ∃ p, listFeeds cfg depth next req.limit statusFilter req.table = .ok p := by
  obtain ⟨_, n, _, _, hnext, _⟩ := h.browses hcursor
  exact listFeeds_ok hnext hid

/-- On a walk from the first page the ids only go up, every feed that is shown matched when its
page was read, and a feed that is there and matches at every request is shown exactly once by
the time there is no next page. -/
theorem feeds_paginated (h : FeedWalk cfg depth statusFilter none reqs pages next) :
    (pages.flatten.Pairwise fun f g ↦ f.id < g.id) ∧
      List.Forall₂ (fun (req : FeedsRequest) items ↦ ∀ r ∈ items,
        ∃ f ∈ req.table, matchesStatus statusFilter f ∧ r = .ofFeed f) reqs pages ∧
      (next = none → ∀ id : Int,
        (∀ req ∈ reqs, ∃ f ∈ req.table, f.id = id ∧ matchesStatus statusFilter f) →
          (pages.flatten.countP fun f ↦ f.id = id) = 1) := by
  obtain ⟨shown, n, hbrowses, rfl, -, hsome⟩ := h.browses (c := none) rfl
  have hkeyed : ∀ request ∈ reqs.map (FeedsRequest.browse cfg statusFilter),
      Keyed Feed.place request.2 := by
    intro request hrequest
    obtain ⟨req, _, rfl⟩ := List.mem_map.mp hrequest
    exact req.browse_keyed
  have hlimit : ∀ request ∈ reqs.map (FeedsRequest.browse cfg statusFilter), 1 ≤ request.1 := by
    intro request hrequest
    obtain ⟨req, _, rfl⟩ := List.mem_map.mp hrequest
    exact one_le_clampLimit cfg req.limit
  refine ⟨?_, ?_, ?_⟩
  · rw [← List.map_flatten]
    exact List.pairwise_map.mpr (hbrowses.pairwise hkeyed).2
  · rw [List.forall₂_map_right_iff]
    refine (List.forall₂_map_left_iff.mp hbrowses.forall₂_mem).imp ?_
    intro req items hitems r hr
    obtain ⟨f, hf, rfl⟩ := List.mem_map.mp hr
    obtain ⟨htable, hmatches⟩ := List.mem_filter.mp (hitems f hf)
    exact ⟨f, htable, hmatches, rfl⟩
  · intro hnone id hstays
    have hn : n = none := by
      rw [hnone] at hsome
      cases n with
      | none => rfl
      | some c => cases hsome
    have hk : ∀ request ∈ reqs.map (FeedsRequest.browse cfg statusFilter),
        ∃ f ∈ request.2, Feed.place f = OrderDual.toDual id := by
      intro request hrequest
      obtain ⟨req, hreq, rfl⟩ := List.mem_map.mp hrequest
      obtain ⟨f, hf, hid, hmatches⟩ := hstays req hreq
      exact ⟨f, List.mem_filter.mpr ⟨hf, hmatches⟩, congrArg OrderDual.toDual hid⟩
    have hcount := hbrowses.countP_eq_one hn hkeyed hlimit hk nofun
    rw [← List.map_flatten, List.countP_map]
    exact hcount

end

/-- A feed with this id and status. -/
def listedFeed (id : Int) (status : FeedStatus) : Feed :=
  { Feed.registered id [] .year2000 .year2000 with status := status }

/-- Requests for active feeds: after the first the first feed is deleted and the second one
reactivated, after the second the fourth breaks and a fifth is registered. -/
def changingRequests : List FeedsRequest :=
  [⟨some 1, [listedFeed 1 .active, listedFeed 2 .broken, listedFeed 3 .active,
      listedFeed 4 .active], by decide +kernel⟩,
    ⟨some (-7), [listedFeed 2 .active, listedFeed 3 .active, listedFeed 4 .active],
      by decide +kernel⟩,
    ⟨some 1000, [listedFeed 5 .active, listedFeed 4 .broken, listedFeed 3 .active],
      by decide +kernel⟩]

/-- The third feed is there all the time, and on one of the pages. -/
theorem changingRequests_walked :
    ([[FeedResponse.ofFeed (listedFeed 1 .active)], [FeedResponse.ofFeed (listedFeed 2 .active)],
      [FeedResponse.ofFeed (listedFeed 3 .active), FeedResponse.ofFeed (listedFeed 5 .active)]
      ].flatten.countP fun f ↦ f.id = 3) = 1 := by
  have hsecond : listFeeds {} 1 none (some 1) (some .active)
      [listedFeed 1 .active, listedFeed 2 .broken, listedFeed 3 .active, listedFeed 4 .active] =
        .ok ⟨[.ofFeed (listedFeed 1 .active)], some "eyJpIjoxfQ".toList⟩ := by
    decide +kernel
  have hthird : listFeeds {} 1 (some "eyJpIjoxfQ".toList) (some (-7)) (some .active)
      [listedFeed 2 .active, listedFeed 3 .active, listedFeed 4 .active] =
        .ok ⟨[.ofFeed (listedFeed 2 .active)], some "eyJpIjoyfQ".toList⟩ := by
    decide +kernel
  have hwalk : FeedWalk {} 1 (some .active) none changingRequests
      [[.ofFeed (listedFeed 1 .active)], [.ofFeed (listedFeed 2 .active)],
        [.ofFeed (listedFeed 3 .active), .ofFeed (listedFeed 5 .active)]] none :=
    .cons hsecond (.cons hthird (.single (by decide +kernel)))
  refine (feeds_paginated hwalk).2.2 rfl 3 ?_
  have hthere : ∀ req ∈ changingRequests, listedFeed 3 .active ∈ req.table := by
    simp [changingRequests]
  exact fun req hreq ↦ ⟨listedFeed 3 .active, hthere req hreq, rfl, rfl⟩

end FeedgateFetcher
