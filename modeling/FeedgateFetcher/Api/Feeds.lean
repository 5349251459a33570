import FeedgateFetcher.FeedState
import FeedgateFetcher.Logic.Table
import FeedgateFetcher.Ssrf

/-!
# `/v1/feeds`

The registration of a feed, statement by statement, and the body of
`reactivate_feed` between the load of an existing row and its flush.
-/

namespace FeedgateFetcher

open Python Logic Table

/-- `HTTPException`. -/
structure HttpException where
  statusCode : Nat
  detail : Text
deriving DecidableEq, Repr

/-! ## Rows of a result -/

/-- The exceptions of a `Result` that has not the rows it was asked for. -/
inductive ResultError where
  | noResultFound
  | multipleResultsFound
deriving DecidableEq, Repr

/-- `result.scalar_one_or_none()`. -/
def scalarOneOrNone {ρ : Type*} : List ρ → Except ResultError (Option ρ)
  | [] => .ok none
  | [r] => .ok (some r)
  | _ => .error .multipleResultsFound

/-- `result.scalar_one()`. -/
def scalarOne {ρ : Type*} : List ρ → Except ResultError ρ
  | [] => .error .noResultFound
  | [r] => .ok r
  | _ => .error .multipleResultsFound

theorem scalarOne_mem {ρ : Type*} {rows : List ρ} {r : ρ} (h : scalarOne rows = .ok r) :
    r ∈ rows := by
  rcases rows with _ | ⟨a, _ | _⟩
  · cases h
  · cases h
    exact List.mem_cons_self
  · cases h

/-- `select(Feed).where(Feed.url == url)`, on the rows that the statement sees. -/
def selectByUrl (url : Text) (rows : List Feed) : List Feed := rows.filter fun f ↦ f.url = url

/-- `select(Feed).where(Feed.id == feed_id)`. -/
def selectById (feedId : Int) (rows : List Feed) : List Feed := rows.filter fun f ↦ f.id = feedId

theorem mem_selectByUrl {url : Text} {rows : List Feed} {f : Feed} :
    f ∈ selectByUrl url rows ↔ f ∈ rows ∧ f.url = url := by
  rw [selectByUrl, List.mem_filter, decide_eq_true_iff]

/-- Where URLs are unique, a selection by URL gives its only row. -/
theorem scalarOne_selectByUrl {url : Text} {rows : List Feed} {f : Feed}
    (hkeyed : Keyed Feed.url rows) (hf : f ∈ rows) (hurl : f.url = url) :
    scalarOne (selectByUrl url rows) = .ok f := by
  have hmem : f ∈ selectByUrl url rows := mem_selectByUrl.mpr ⟨hf, hurl⟩
  have hall : ∀ g ∈ selectByUrl url rows, g = f := by
    intro g hg
    obtain ⟨hg, hgurl⟩ := mem_selectByUrl.mp hg
    exact hkeyed.eq_of_key hg hf (hgurl.trans hurl.symm)
  have hnodup : (selectByUrl url rows).Nodup := hkeyed.nodup.filter _
  rcases hrows : selectByUrl url rows with _ | ⟨g, _ | ⟨g', rest⟩⟩
  · rw [hrows] at hmem
    cases hmem
  · rw [hrows] at hall
    rw [hall g List.mem_cons_self]
    rfl
  · rw [hrows] at hall hnodup
    have hsame : g = g' := (hall g List.mem_cons_self).trans
      (hall g' (List.mem_cons_of_mem _ List.mem_cons_self)).symm
    exact absurd (hsame ▸ List.mem_cons_self) (List.nodup_cons.mp hnodup).1

theorem scalarOne_selectByUrl_of_free {url : Text} {rows : List Feed}
    (h : ∀ f ∈ rows, f.url ≠ url) :
    scalarOne (selectByUrl url rows) = .error .noResultFound := by
  have hrows : selectByUrl url rows = [] :=
    List.eq_nil_iff_forall_not_mem.mpr fun f hf ↦
      h f (mem_selectByUrl.mp hf).1 (mem_selectByUrl.mp hf).2
  rw [hrows]
  rfl

/-! ## Registration -/

/-- `normalize_url`. -/
def normalizeUrl (raw : Text) : Except PyError Text := do
  let parts ← SplitResult.urlsplit raw
  let path := parts.path
  let path := if path ≠ ['/'] ∧ path.getLast? = some '/' then
    Text.rstripWhere (· == '/') path else path
  let path := if path = ['/'] then [] else path
  pure (SplitResult.urlunsplit ⟨parts.scheme, parts.netloc, path, parts.query, []⟩)

/-- `create_feed` up to its first statement: the URL to register.  The guard does not
resolve the host. -/
def registrationUrl (raw : Text) : Except (HttpException ⊕ Exc) Text := do
  let url ← (normalizeUrl raw).mapError fun e ↦ .inr (.builtin e)
  match Ssrf.validatePublicUrl (fun _ ↦ .ok []) url false with
  | .ok _ => pure url
  | .error (.blockedURL detail) => throw (.inl ⟨400, "blocked_url: ".toList ++ detail⟩)
  | .error exc => throw (.inr exc)

/-- The payload of a registration that gets to its first statement. -/
structure PublicUrl where
  raw : Text
  url : Text
  valid : registrationUrl raw = .ok url

theorem PublicUrl.normalized (u : PublicUrl) : normalizeUrl u.raw = .ok u.url := by
  have h := u.valid
  unfold registrationUrl at h
  rcases hn : normalizeUrl u.raw with e | url
  · rw [hn] at h
    cases h
  · rw [hn] at h
    change (match Ssrf.validatePublicUrl _ url false with
      | .ok _ => _
      | .error (.blockedURL detail) => _
      | .error exc => _) = _ at h
    split at h
    · exact congrArg Except.ok (Except.ok.inj h)
    · cases h
    · cases h

/-- `INSERT … ON CONFLICT (url) DO NOTHING`, on the rows that the statement sees: the row that
is inserted, if one is. -/
def insertFeed (row : Feed) (rows : List Feed) : Option Feed :=
  if ∃ f ∈ rows, f.url = row.url then none else some row

theorem insertFeed_eq_some {row f : Feed} {rows : List Feed} (h : insertFeed row rows = some f) :
    f = row ∧ ∀ g ∈ rows, g.url ≠ row.url := by
  unfold insertFeed at h
  split at h
  · cases h
  · rename_i hfree
    cases h
    exact ⟨rfl, fun g hg hurl ↦ hfree ⟨g, hg, hurl⟩⟩

theorem insertFeed_eq_none {row : Feed} {rows : List Feed} (h : insertFeed row rows = none) :
    ∃ g ∈ rows, g.url = row.url := by
  unfold insertFeed at h
  split at h
  · assumption
  · cases h

/-- A response, and the feed in its body. -/
structure ApiResponse where
  statusCode : Nat
  feed : Option Feed
deriving DecidableEq, Repr

/-- The response of `create_feed`, for what it has inserted and selected. -/
def createFeedResponse (new : Option Feed) (feed : Feed) : ApiResponse :=
  ⟨if new.isNone then 200 else 201, some feed⟩

/-- The response of `delete_feed`. -/
def deleteFeedResponse : ApiResponse := ⟨204, none⟩

/-- The response to a request that raises. -/
def internalServerError : ApiResponse := ⟨500, none⟩

/-! ## Reactivation -/

/-- `reactivate_feed`. -/
def reactivateFeed (now : Datetime) (r : Tracked) : Tracked :=
  let r := if r.feed.status ≠ .active then r.transitionFeed .active .manualReactivate else r
  r.update fun f ↦
    { f with
      status := .active
      consecutiveFailures := 0
      lastErrorCode := none
      nextFetchAt := now }

end FeedgateFetcher
