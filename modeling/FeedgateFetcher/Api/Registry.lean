import FeedgateFetcher.Api.Feeds
import FeedgateFetcher.Logic.ReadCommitted
import FeedgateFetcher.Logic.Transition

/-!
# Concurrent requests

`create_feed` and `delete_feed` as transactions, whose statements and commits come
in any order among those of the others.  An `INSERT` waits only for an uncommitted
insertion of its URL: that it also waits for an uncommitted `DELETE` of the row is
not used.
-/

namespace FeedgateFetcher

open Python Logic Table

/-! ## Requests -/

inductive ApiRequest where
  | create (u : PublicUrl)
  | delete (feedId : Int)

/-- How far a request has come. -/
inductive Phase where
  | received
  /-- `create_feed` has executed its `INSERT`. -/
  | inserted (new : Option Feed)
  /-- `create_feed` has executed its `SELECT`. -/
  | selected (new : Option Feed) (feed : Feed)
  /-- `delete_feed` has executed its `SELECT`. -/
  | loaded (feed : Option Feed)
  /-- The session of `delete_feed` has flushed its `DELETE`. -/
  | deleted (feed : Feed)
  | ended (response : ApiResponse)

namespace Phase

/-- What the transaction of the request has done so far. -/
def work : Phase → Work Feed Int
  | .inserted new => ⟨new.toList, []⟩
  | .selected new _ => ⟨new.toList, []⟩
  | .deleted feed => ⟨[], [feed.id]⟩
  | _ => .none

/-- The response of an endpoint that has returned and whose session remains to be committed. -/
def response : Phase → Option ApiResponse
  | .selected new feed => some (createFeedResponse new feed)
  | .loaded none => some deleteFeedResponse
  | .deleted _ => some deleteFeedResponse
  | _ => none

/-- The feed that the request returns. -/
def answer : Phase → Option Feed
  | .selected _ feed => some feed
  | .ended response => response.feed
  | _ => none

/-- The number of steps it takes to get there, at most. -/
def rank : Phase → Nat
  | .received => 0
  | .inserted _ => 1
  | .selected _ _ => 2
  | .loaded _ => 1
  | .deleted _ => 2
  | .ended _ => 3

theorem rank_le (p : Phase) : p.rank ≤ 3 := by
  cases p <;> simp [rank]

/-- A request that inserts deletes nothing. -/
theorem deleted_of_inserted {p : Phase} {f : Feed} (hf : f ∈ p.work.inserted) :
    p.work.deleted = [] := by
  cases p with
  | inserted new => rfl
  | selected new feed => rfl
  | _ => cases hf

theorem response_ne_internalServerError (p : Phase) : p.response ≠ some internalServerError := by
  rcases p with _ | _ | ⟨_ | _, feed⟩ | ⟨_ | feed⟩ | feed | r
  all_goals exact fun h ↦ nomatch h

end Phase

/-- The phases that a request gets to. -/
def ApiRequest.Admits : ApiRequest → Phase → Prop
  | _, .received => True
  | .create u, .inserted new => ∀ f ∈ new, f.url = u.url
  | .create u, .selected new feed => (∀ f ∈ new, f.url = u.url) ∧ feed.url = u.url
  | .create u, .ended r => r = internalServerError ∨
    ∃ f, f.url = u.url ∧ (r = ⟨200, some f⟩ ∨ r = ⟨201, some f⟩)
  | .delete _, .loaded _ => True
  | .delete _, .deleted _ => True
  | .delete _, .ended r => r.feed = none
  | _, _ => False

theorem Phase.answer_of_response {p : Phase} {r : ApiResponse} {f : Feed}
    (hr : p.response = some r) (hf : r.feed = some f) : p.answer = some f := by
  rcases p with _ | _ | ⟨new, feed⟩ | ⟨_ | feed⟩ | feed | r'
  all_goals cases hr
  · exact hf
  · cases hf
  · cases hf

theorem ApiRequest.Admits.commit {q : ApiRequest} {p : Phase} {r : ApiResponse}
    (h : q.Admits p) (hr : p.response = some r) : q.Admits (.ended r) := by
  rcases p with _ | _ | ⟨new, feed⟩ | ⟨_ | feed⟩ | feed | r'
  all_goals cases hr
  · rcases q with u | feedId
    · refine .inr ⟨feed, h.2, ?_⟩
      cases new
      · exact .inl rfl
      · exact .inr rfl
    · exact h.elim
  · rcases q with u | feedId
    · exact h.elim
    · rfl
  · rcases q with u | feedId
    · exact h.elim
    · rfl

/-- What a registration answers has its URL. -/
theorem ApiRequest.Admits.answer_url {u : PublicUrl} {p : Phase} {f : Feed}
    (h : (ApiRequest.create u).Admits p) (hf : p.answer = some f) : f.url = u.url := by
  rcases p with _ | _ | ⟨new, feed⟩ | feed | feed | r
  · cases hf
  · cases hf
  · cases hf
    exact h.2
  · cases hf
  · cases hf
  · rcases h with rfl | ⟨g, hg, rfl | rfl⟩
    · cases hf
    · cases hf
      exact hg
    · cases hf
      exact hg

/-! ## The table and the requests on it -/

/-- A committed change of the table. -/
inductive Change where
  | registered (feed : Feed)
  | deleted (feed : Feed)

def Change.feed : Change → Feed
  | .registered feed => feed
  | .deleted feed => feed

/-- The `feeds` table, its sequence, the changes committed so far, the last one first, and the
requests in progress. -/
structure Registry (ι : Type*) where
  table : List Feed
  nextId : Int
  history : List Change
  phase : ι → Phase

namespace Registry

variable {ι : Type*}

/-- The table and what the transactions have done to it. -/
def shared (s : Registry ι) : SharedTable Feed Int ι := ⟨s.table, fun i ↦ (s.phase i).work⟩

/-- The rows that the request sees. -/
def visible (s : Registry ι) (i : ι) : List Feed := s.shared.visible Feed.id i

theorem mem_visible {s : Registry ι} {i : ι} {f : Feed} : f ∈ s.visible i ↔
    f ∈ s.table ∧ f.id ∉ (s.phase i).work.deleted ∨ f ∈ (s.phase i).work.inserted :=
  SharedTable.mem_visible

/-- What the commit of the request changes. -/
def changes (s : Registry ι) (i : ι) : List Change :=
  (s.phase i).work.inserted.map .registered ++
    (s.table.filter fun f ↦ f.id ∈ (s.phase i).work.deleted).map .deleted

/-- The last change that was committed for the URL is a delete. -/
def Vacated (s : Registry ι) (url : Text) : Prop :=
  ∃ f, s.history.find? (fun c ↦ c.feed.url = url) = some (.deleted f)

section

variable {s : Registry ι} {i : ι} {f : Feed} {url : Text}

theorem mem_changes_deleted (hf : f ∈ s.table) (hid : f.id ∈ (s.phase i).work.deleted) :
    Change.deleted f ∈ s.changes i := by
  refine List.mem_append_right _ (List.mem_map_of_mem (List.mem_filter.mpr ⟨hf, ?_⟩))
  exact decide_eq_true hid

/-- A commit that leaves nothing to be said of a URL does not touch its row. -/
theorem changes_none (h : ((s.changes i).find? fun c ↦ c.feed.url = url) = none) :
    (∀ f ∈ (s.phase i).work.inserted, f.url ≠ url) ∧
      ∀ f ∈ s.table, f.id ∈ (s.phase i).work.deleted → f.url ≠ url := by
  rw [List.find?_eq_none] at h
  constructor
  · intro f hf hurl
    exact h (.registered f) (List.mem_append_left _ (List.mem_map_of_mem hf)) (decide_eq_true hurl)
  · intro f hf hid hurl
    exact h (.deleted f) (mem_changes_deleted hf hid) (decide_eq_true hurl)

theorem changes_registered
    (h : ((s.changes i).find? fun c ↦ c.feed.url = url) = some (.registered f)) :
    f ∈ (s.phase i).work.inserted ∧ f.url = url := by
  have hurl := List.find?_some h
  rw [decide_eq_true_iff] at hurl
  refine ⟨?_, hurl⟩
  rcases List.mem_append.mp (List.mem_of_find?_eq_some h) with hmem | hmem
  · obtain ⟨g, hg, hgf⟩ := List.mem_map.mp hmem
    cases hgf
    exact hg
  · obtain ⟨g, -, hgf⟩ := List.mem_map.mp hmem
    cases hgf

/-- A commit that leaves a URL deleted has found its row and inserts no other. -/
theorem changes_deleted
    (h : ((s.changes i).find? fun c ↦ c.feed.url = url) = some (.deleted f)) :
    f ∈ s.table ∧ f.id ∈ (s.phase i).work.deleted ∧ f.url = url ∧
      ∀ g ∈ (s.phase i).work.inserted, g.url ≠ url := by
  have hurl := List.find?_some h
  rw [decide_eq_true_iff] at hurl
  have hmem := List.mem_of_find?_eq_some h
  rw [changes, List.find?_append] at h
  rcases hc : ((s.phase i).work.inserted.map Change.registered).find? fun c ↦ c.feed.url = url with
    _ | c
  · have hnone := List.find?_eq_none.mp hc
    have hdeleted : f ∈ s.table ∧ f.id ∈ (s.phase i).work.deleted := by
      rcases List.mem_append.mp hmem with hmem | hmem
      · obtain ⟨g, -, hgf⟩ := List.mem_map.mp hmem
        cases hgf
      · obtain ⟨g, hg, hgf⟩ := List.mem_map.mp hmem
        cases hgf
        obtain ⟨hg, hid⟩ := List.mem_filter.mp hg
        exact ⟨hg, of_decide_eq_true hid⟩
    refine ⟨hdeleted.1, hdeleted.2, hurl, fun g hg hgurl ↦ ?_⟩
    exact hnone (.registered g) (List.mem_map_of_mem hg) (decide_eq_true hgurl)
  · rw [hc, Option.some_or] at h
    cases h
    obtain ⟨g, -, hgf⟩ := List.mem_map.mp (List.mem_of_find?_eq_some hc)
    cases hgf

end

variable [DecidableEq ι]

/-- The request gets to another phase without a commit. -/
def advance (s : Registry ι) (i : ι) (p : Phase) : Registry ι :=
  { s with phase := Function.update s.phase i p }

/-- `get_session` after the endpoint has returned. -/
def commit (s : Registry ι) (i : ι) (response : ApiResponse) : Registry ι where
  table := s.visible i
  nextId := s.nextId
  history := s.changes i ++ s.history
  phase := Function.update s.phase i (.ended response)

/-- One statement of one request, or its commit. -/
inductive Step (requests : ι → ApiRequest) (s : Registry ι) : ι → Registry ι → Prop
  | insert {i : ι} {u : PublicUrl} (now dbNow : Datetime) (hreq : requests i = .create u)
    (hphase : s.phase i = .received)
    (hwait : ∀ j ≠ i, ∀ f ∈ (s.phase j).work.inserted, f.url ≠ u.url) :
    Step requests s i
      ({ s with nextId := s.nextId + 1 }.advance i
        (.inserted (insertFeed (Feed.registered s.nextId u.url now dbNow) (s.visible i))))
  | select {i : ι} {u : PublicUrl} {new : Option Feed} (hreq : requests i = .create u)
    (hphase : s.phase i = .inserted new) :
    Step requests s i (s.advance i (match scalarOne (selectByUrl u.url (s.visible i)) with
      | .ok feed => .selected new feed
      | .error _ => .ended internalServerError))
  | load {i : ι} {feedId : Int} (hreq : requests i = .delete feedId)
    (hphase : s.phase i = .received) :
    Step requests s i (s.advance i (match scalarOneOrNone (selectById feedId (s.visible i)) with
      | .ok feed => .loaded feed
      | .error _ => .ended internalServerError))
  | delete {i : ι} {feed : Feed} (hphase : s.phase i = .loaded (some feed)) :
    Step requests s i (s.advance i (.deleted feed))
  | commit {i : ι} {response : ApiResponse} (hphase : (s.phase i).response = some response) :
    Step requests s i (s.commit i response)

end Registry

end FeedgateFetcher
