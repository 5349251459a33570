import FeedgateFetcher.Api.EntryList
import FeedgateFetcher.Api.FeedList

/-!
# The API server

A request from its arrival to the end of its session: the key, the validation of the parameters, the
endpoint, and the handlers of its exceptions.  The framework sends the response before it closes the
session, so a commit that fails undoes what has been acknowledged.
-/

namespace FeedgateFetcher

open Python Logic Table

/-! ## Requests -/

/-- A request whose parameters are valid.  The URL is the text of its `HttpUrl`. -/
inductive Call where
  | createFeed (url : Text)
  | listFeeds (cursor : Option Text) (limit : Option Int) (statusFilter : Option FeedStatus)
  | getFeed (feedId : Int)
  | deleteFeed (feedId : Int)
  | reactivateFeed (feedId : Int)
  | listEntries (feedIds : Text) (cursor : Option Text) (limit : Option Nat)
deriving DecidableEq, Repr

/-- The errors of a validation, each with its `loc` and its `msg`. -/
abbrev ValidationErrors := List (Text × Text)

/-- A problem document. -/
structure Problem where
  title : Text
  status : Nat
  detail : Text
  «instance» : Text
deriving DecidableEq, Repr

inductive Body where
  | empty
  | feed (f : FeedResponse)
  | feeds (p : PaginatedFeeds)
  | entries (p : Wire.PaginatedEntries)
  | problem (p : Problem)
  /-- A text or a document that the framework or a library has made up. -/
  | text (t : Text)
deriving DecidableEq, Repr

structure Reply where
  statusCode : Nat
  body : Body
deriving DecidableEq, Repr

/-- How a request ends without the response of its endpoint. -/
inductive Failure where
  | http (exc : HttpException)
  | validation (errors : ValidationErrors)
  | rateLimitExceeded (detail : Text)
  /-- An exception without a handler. -/
  | escaped
deriving DecidableEq, Repr

/-- What the framework makes of a request. -/
inductive Routed where
  /-- It answers by itself, as for an unknown path. -/
  | framework (reply : Reply)
  | healthz
  /-- The body cannot be read: this is found before the key is looked at. -/
  | unreadable (failure : Failure)
  | metrics
  | api (call : Except ValidationErrors Call)
deriving Repr

/-- A request, and what the server meets while it handles it. -/
structure HttpRequest where
  path : Text
  /-- The first `x-api-key` field. -/
  apiKey : Option Text
  routed : Routed
  now : Datetime
  /-- The clock of its transaction. -/
  dbNow : Datetime
  /-- The detail of the limit that the middleware finds exceeded. -/
  overLimit : Option Text := none
  /-- The same for the limit of `create_feed`. -/
  overPostLimit : Option Text := none
  /-- `generate_latest()`. -/
  exposition : Text := []
  /-- The recursion limit that the JSON decoder meets. -/
  depth : Nat := 1000
  /-- What the driver makes of a cursor. -/
  send : Wire.Binding
  /-- The database accepts the commit. -/
  commits : Bool := true

/-- `app.state`. -/
structure AppState where
  apiKey : Text := []
  feeds : FeedsSettings := {}
  entries : EntriesSettings := {}

/-- The two tables and their sequences. -/
@[ext]
structure Database where
  feeds : List Feed
  nextFeedId : Int
  entries : List Entry
  nextEntryId : Int
deriving DecidableEq

namespace Database

/-- `INSERT INTO feeds … ON CONFLICT DO NOTHING`; the sequence moves on also when the URL is
taken. -/
def registered (db : Database) (url : Text) (now dbNow : Datetime) : Database :=
  { db with
    feeds := db.feeds ++ (insertFeed (Feed.registered db.nextFeedId url now dbNow) db.feeds).toList
    nextFeedId := db.nextFeedId + 1 }

/-- `DELETE FROM feeds`, with the entries that the foreign key takes along. -/
def removed (db : Database) (feedId : Int) : Database :=
  { db with
    feeds := db.feeds.filter fun f ↦ f.id ≠ feedId
    entries := db.entries.filter fun e ↦ e.feedId ≠ feedId }

/-- The row of a feed is replaced. -/
def replaced (db : Database) (mine : Feed) : Database :=
  { db with feeds := db.feeds.map fun f ↦ if f.id = mine.id then mine else f }

end Database

/-! ## `api/errors.py` -/

/-- `HTTPStatus(status_code).phrase`, for the codes that the application raises. -/
def statusTitle : Nat → Text
  | 400 => "Bad Request".toList
  | 401 => "Unauthorized".toList
  | 404 => "Not Found".toList
  | 422 => "Unprocessable Entity".toList
  | _ => "Error".toList

/-- `http_exception_handler`. -/
def httpExceptionHandler (path : Text) (exc : HttpException) : Reply :=
  ⟨exc.statusCode, .problem ⟨statusTitle exc.statusCode, exc.statusCode, exc.detail, path⟩⟩

/-- `validation_exception_handler`. -/
def validationExceptionHandler (path : Text) (errors : ValidationErrors) : Reply :=
  let detail := match errors with
    | first :: _ => first.1 ++ ": ".toList ++ first.2
    | [] => "validation error".toList
  ⟨422, .problem ⟨"Unprocessable Entity".toList, 422, detail, path⟩⟩

/-- The response to an exception. -/
def Failure.reply (path : Text) : Failure → Reply
  | .http exc => httpExceptionHandler path exc
  | .validation errors => validationExceptionHandler path errors
  | .rateLimitExceeded detail => ⟨429, .text ("Rate limit exceeded: ".toList ++ detail)⟩
  | .escaped => ⟨500, .text "Internal Server Error".toList⟩

/-- No exception is answered with a feed. -/
theorem Failure.reply_ne_feed (failure : Failure) {path : Text} {f : FeedResponse} :
    (failure.reply path).body ≠ .feed f := by
  intro h
  cases failure with
  | http exc => cases h
  | validation errors => cases h
  | rateLimitExceeded detail => cases h
  | escaped => cases h

/-! ## `api/dependencies.py` -/

/-- `str.isascii`. -/
def isAscii (s : Text) : Bool := s.all fun c ↦ c.toNat < 128

/-- `hmac.compare_digest`, which compares no other strings than those of ASCII. -/
def compareDigest (a b : Text) : Except PyError Bool :=
  if isAscii a && isAscii b then .ok (a = b) else .error .typeError

/-- `require_api_key`. -/
def requireApiKey (configuredKey : Text) (apiKey : Option Text) : Except Failure Unit :=
  if configuredKey.isEmpty then .ok ()
  else
    let providedKey := apiKey.getD []
    if providedKey.isEmpty then .error (.http ⟨401, "invalid_api_key".toList⟩)
    else match compareDigest providedKey configuredKey with
      | .error _ => .error .escaped
      | .ok same => if same then .ok () else .error (.http ⟨401, "invalid_api_key".toList⟩)

/-! ## Endpoints -/

/-- An id that the driver can send. -/
def bindId (feedId : Int) : Except Failure Int :=
  if IsColumnId feedId then .ok feedId else .error .escaped

/-- `select(Feed).where(Feed.id == feed_id)`, for the one row that it has. -/
def oneFeed (feedId : Int) (db : Database) : Except Failure (Option Feed) := do
  let feedId ← bindId feedId
  (scalarOneOrNone (selectById feedId db.feeds)).mapError fun _ ↦ .escaped

def feedNotFound : Failure := .http ⟨404, "feed not found".toList⟩

/-- `create_feed`. -/
def createFeed (overPostLimit : Option Text) (now dbNow : Datetime) (url : Text) (db : Database) :
    Except Failure (Reply × Database) :=
  match overPostLimit with
  | some detail => .error (.rateLimitExceeded detail)
  | none => match registrationUrl url with
    | .error (.inl exc) => .error (.http exc)
    | .error (.inr _) => .error .escaped
    | .ok url =>
      let new := insertFeed (Feed.registered db.nextFeedId url now dbNow) db.feeds
      let db := db.registered url now dbNow
      match scalarOne (selectByUrl url db.feeds) with
      | .error _ => .error .escaped
      | .ok feed => .ok (⟨(createFeedResponse new feed).statusCode, .feed (.ofFeed feed)⟩, db)

/-- `list_feeds`; the id of the cursor goes through the driver. -/
def listFeedsCall (cfg : FeedsSettings) (depth : Nat) (cursor : Option Text) (limit : Option Int)
    (statusFilter : Option FeedStatus) (db : Database) : Except Failure PaginatedFeeds := do
  match cursor with
  | none => pure ()
  | some text => match decodeFeedCursor depth text with
    | .ok id => discard (bindId id)
    | .error _ => pure ()
  match listFeeds cfg depth cursor limit statusFilter db.feeds with
  | .ok page => pure page
  | .error (.inl exc) => throw (.http exc)
  | .error (.inr _) => throw .escaped

/-- `get_feed`. -/
def getFeed (feedId : Int) (db : Database) : Except Failure FeedResponse := do
  match ← oneFeed feedId db with
  | none => throw feedNotFound
  | some feed => pure (.ofFeed feed)

/-- `delete_feed`. -/
def deleteFeed (feedId : Int) (db : Database) : Except Failure Database := do
  match ← oneFeed feedId db with
  | none => pure db
  | some feed => pure (db.removed feed.id)

/-- `reactivate_feed`, with its load and its flush. -/
def reactivateFeedCall (now : Datetime) (feedId : Int) (db : Database) :
    Except Failure (FeedResponse × Database) := do
  match ← oneFeed feedId db with
  | none => throw feedNotFound
  | some feed =>
    let mine := (reactivateFeed now ⟨feed, []⟩).feed
    pure (.ofFeed mine, db.replaced mine)

/-- The endpoint of a call. -/
def endpoint (app : AppState) (req : HttpRequest) (call : Call) (db : Database) :
    Except Failure (Reply × Database) :=
  match call with
  | .createFeed url => createFeed req.overPostLimit req.now req.dbNow url db
  | .listFeeds cursor limit statusFilter =>
    (listFeedsCall app.feeds req.depth cursor limit statusFilter db).map fun page ↦
      (⟨200, .feeds page⟩, db)
  | .getFeed feedId => (getFeed feedId db).map fun feed ↦ (⟨200, .feed feed⟩, db)
  | .deleteFeed feedId => (deleteFeed feedId db).map fun db' ↦ (⟨204, .empty⟩, db')
  | .reactivateFeed feedId =>
    (reactivateFeedCall req.now feedId db).map fun r ↦ (⟨200, .feed r.1⟩, r.2)
  | .listEntries feedIds cursor limit =>
    match Wire.listEntries app.entries req.depth req.send feedIds cursor limit db.entries with
    | .ok page => .ok (⟨200, .entries page⟩, db)
    | .error (.http exc) => .error (.http exc)
    | .error _ => .error .escaped

/-! ## The server -/

/-- `get_session` around an endpoint: the tables change when the endpoint has returned and the
commit succeeds; what was taken of a sequence is gone in any case. -/
def inSession (req : HttpRequest) (db : Database) (run : Except Failure (Reply × Database)) :
    Reply × Database :=
  match run with
  | .error failure => (failure.reply req.path, db)
  | .ok (reply, db') =>
    (reply, if req.commits then db' else { db with nextFeedId := db'.nextFeedId })

/-- The response to a request, and the tables after it. -/
def serve (app : AppState) (req : HttpRequest) (db : Database) : Reply × Database :=
  match req.overLimit with
  | some detail => ((Failure.rateLimitExceeded detail).reply req.path, db)
  | none => match req.routed with
    | .framework reply => (reply, db)
    | .healthz => (⟨200, .text "ok".toList⟩, db)
    | .unreadable failure => (failure.reply req.path, db)
    | .metrics => match requireApiKey app.apiKey req.apiKey with
      | .error failure => (failure.reply req.path, db)
      | .ok () => (⟨200, .text req.exposition⟩, db)
    | .api call => match requireApiKey app.apiKey req.apiKey with
      | .error failure => (failure.reply req.path, db)
      | .ok () => match call with
        | .error errors => ((Failure.validation errors).reply req.path, db)
        | .ok call => inSession req db (endpoint app req call db)

/-! ## What an endpoint makes of the tables -/

/-- The call, if the request gets to its endpoint. -/
def HttpRequest.admitted (app : AppState) (req : HttpRequest) : Option Call :=
  match req.overLimit, req.routed, requireApiKey app.apiKey req.apiKey with
  | none, .api (.ok call), .ok () => some call
  | _, _, _ => none

/-- What a call can make of the tables. -/
inductive Database.Changes (now dbNow : Datetime) (db : Database) : Call → Database → Prop
  | create (u : PublicUrl) :
    Changes now dbNow db (.createFeed u.raw) (db.registered u.url now dbNow)
  | delete {f : Feed} (hf : f ∈ db.feeds) :
    Changes now dbNow db (.deleteFeed f.id) (db.removed f.id)
  | reactivate {f : Feed} (hf : f ∈ db.feeds) :
    Changes now dbNow db (.reactivateFeed f.id) (db.replaced (reactivateFeed now ⟨f, []⟩).feed)
  | nothing (call : Call) : Changes now dbNow db call db

section

variable {app : AppState} {req : HttpRequest} {call : Call} {db db' : Database} {reply : Reply}
  {feedId : Int}

theorem oneFeed_eq (feedId : Int) (db : Database) : oneFeed feedId db =
    if IsColumnId feedId then
      (scalarOneOrNone (selectById feedId db.feeds)).mapError fun _ ↦ Failure.escaped
    else .error .escaped := by
  rw [oneFeed, bindId]
  split
  · rfl
  · rfl

theorem scalarOneOrNone_ok {ρ : Type*} {rows : List ρ} {found : Option ρ}
    (h : scalarOneOrNone rows = .ok found) : rows = found.toList := by
  rcases rows with _ | ⟨r, _ | ⟨r', rest⟩⟩
  · cases h
    rfl
  · cases h
    rfl
  · cases h

/-- An id denotes one feed or none. -/
theorem oneFeed_ok {found : Option Feed} (h : oneFeed feedId db = .ok found) :
    IsColumnId feedId ∧ selectById feedId db.feeds = found.toList := by
  rw [oneFeed_eq] at h
  split at h
  · rename_i hid
    refine ⟨hid, ?_⟩
    cases hrows : scalarOneOrNone (selectById feedId db.feeds) with
    | error e =>
        rw [hrows] at h
        cases h
    | ok found' =>
        rw [hrows] at h
        cases h
        exact scalarOneOrNone_ok hrows
  · cases h

theorem oneFeed_mem {f : Feed} (h : oneFeed feedId db = .ok (some f)) :
    f ∈ db.feeds ∧ f.id = feedId := by
  have hmem : f ∈ selectById feedId db.feeds := by
    rw [(oneFeed_ok h).2]
    exact List.mem_cons_self
  obtain ⟨hf, hid⟩ := List.mem_filter.mp hmem
  exact ⟨hf, of_decide_eq_true hid⟩

/-- Where ids are unique, a selection by id gives its only row. -/
theorem oneFeed_of_mem {f : Feed} (hkeyed : Keyed Feed.id db.feeds) (hf : f ∈ db.feeds)
    (hid : IsColumnId f.id) : oneFeed f.id db = .ok (some f) := by
  have hrows : selectById f.id db.feeds = [f] := by
    refine List.perm_singleton.mp
      ((List.perm_ext_iff_of_nodup (hkeyed.nodup.filter _) (List.nodup_singleton f)).mpr fun g ↦ ?_)
    rw [List.mem_filter, List.mem_singleton, decide_eq_true_iff]
    constructor
    · rintro ⟨hg, hgid⟩
      exact hkeyed.eq_of_key hg hf hgid
    · rintro rfl
      exact ⟨hf, rfl⟩
  rw [oneFeed_eq, if_pos hid, hrows]
  rfl

theorem oneFeed_of_free (h : ∀ f ∈ db.feeds, f.id ≠ feedId) (hid : IsColumnId feedId) :
    oneFeed feedId db = .ok none := by
  have hrows : selectById feedId db.feeds = [] :=
    List.filter_eq_nil_iff.mpr fun f hf hfid ↦ h f hf (of_decide_eq_true hfid)
  rw [oneFeed_eq, if_pos hid, hrows]
  rfl

theorem createFeed_ok {overPostLimit : Option Text} {now dbNow : Datetime} {url : Text}
    (h : createFeed overPostLimit now dbNow url db = .ok (reply, db')) :
    ∃ u : PublicUrl, u.raw = url ∧ db' = db.registered u.url now dbNow ∧
      ∃ f ∈ db'.feeds, f.url = u.url ∧ reply.body = .feed (.ofFeed f) := by
  unfold createFeed at h
  split at h
  · cases h
  · split at h
    · cases h
    · cases h
    · rename_i url' hurl
      dsimp only at h
      split at h
      · cases h
      · rename_i f hf
        cases h
        obtain ⟨hmem, hfurl⟩ := mem_selectByUrl.mp (scalarOne_mem hf)
        exact ⟨⟨url, url', hurl⟩, rfl, rfl, f, hmem, hfurl, rfl⟩

theorem deleteFeed_ok {now dbNow : Datetime} (h : deleteFeed feedId db = .ok db') :
    db.Changes now dbNow (.deleteFeed feedId) db' := by
  unfold deleteFeed at h
  rcases hfound : oneFeed feedId db with e | _ | f
  · rw [hfound] at h
    cases h
  · rw [hfound] at h
    cases h
    exact .nothing _
  · rw [hfound] at h
    cases h
    obtain ⟨hf, rfl⟩ := oneFeed_mem hfound
    exact .delete hf

theorem reactivateFeedCall_ok {now dbNow : Datetime} {r : FeedResponse × Database}
    (h : reactivateFeedCall now feedId db = .ok r) :
    db.Changes now dbNow (.reactivateFeed feedId) r.2 := by
  unfold reactivateFeedCall at h
  rcases hfound : oneFeed feedId db with e | _ | f
  · rw [hfound] at h
    cases h
  · rw [hfound] at h
    cases h
  · rw [hfound] at h
    cases h
    obtain ⟨hf, rfl⟩ := oneFeed_mem hfound
    exact .reactivate hf

theorem endpoint_changes (h : endpoint app req call db = .ok (reply, db')) :
    db.Changes req.now req.dbNow call db' := by
  have hread : ∀ {ρ : Type} {f : ρ → Reply} {r : Except Failure ρ},
      r.map (fun x ↦ (f x, db)) = .ok (reply, db') → db = db' := by
    intro ρ f r hr
    cases r with
    | error e => cases hr
    | ok x => exact congrArg Prod.snd (Except.ok.inj hr)
  cases call with
  | createFeed url =>
      obtain ⟨u, rfl, rfl, -⟩ := createFeed_ok h
      exact .create u
  | listFeeds cursor limit statusFilter => exact hread h ▸ .nothing _
  | getFeed feedId => exact hread h ▸ .nothing _
  | deleteFeed feedId =>
      unfold endpoint at h
      cases hr : deleteFeed feedId db with
      | error e =>
          simp only [hr] at h
          cases h
      | ok db'' =>
          simp only [hr] at h
          cases h
          exact deleteFeed_ok hr
  | reactivateFeed feedId =>
      unfold endpoint at h
      cases hr : reactivateFeedCall req.now feedId db with
      | error e =>
          simp only [hr] at h
          cases h
      | ok r =>
          simp only [hr] at h
          cases h
          exact reactivateFeedCall_ok hr
  | listEntries feedIds cursor limit =>
      unfold endpoint at h
      dsimp only at h
      split at h
      · cases h
        exact .nothing _
      · cases h
      · cases h

/-- A feed is shown under its id as long as it is there. -/
theorem getFeed_of_mem {f : Feed} (hkeyed : Keyed Feed.id db.feeds) (hf : f ∈ db.feeds)
    (hid : IsColumnId f.id) : getFeed f.id db = .ok (.ofFeed f) := by
  rw [getFeed, oneFeed_of_mem hkeyed hf hid]
  rfl

theorem getFeed_of_free (h : ∀ f ∈ db.feeds, f.id ≠ feedId) (hid : IsColumnId feedId) :
    getFeed feedId db = .error feedNotFound := by
  rw [getFeed, oneFeed_of_free h hid]
  rfl

/-- What passes the checks depends on the normalized URL only. -/
theorem registrationUrl_of_normalized {raw raw' url : Text} (h : registrationUrl raw = .ok url)
    (hn : normalizeUrl raw' = .ok url) : registrationUrl raw' = .ok url := by
  have hn' := PublicUrl.normalized ⟨raw, url, h⟩
  unfold registrationUrl at h ⊢
  rw [hn]
  rw [hn'] at h
  exact h

/-- A URL that is registered is answered with its feed. -/
theorem createFeed_of_mem {u : PublicUrl} {f : Feed} (now dbNow : Datetime)
    (hkeyed : Keyed Feed.url db.feeds) (hf : f ∈ db.feeds) (hurl : f.url = u.url) :
    createFeed none now dbNow u.raw db =
      .ok (⟨200, .feed (.ofFeed f)⟩, db.registered u.url now dbNow) := by
  have hnew : insertFeed (Feed.registered db.nextFeedId u.url now dbNow) db.feeds = none :=
    if_pos ⟨f, hf, hurl⟩
  have hfeeds : (db.registered u.url now dbNow).feeds = db.feeds := by
    rw [Database.registered, hnew]
    exact List.append_nil _
  unfold createFeed
  rw [u.valid]
  dsimp only
  rw [hfeeds, scalarOne_selectByUrl hkeyed hf hurl, hnew]
  rfl

/-! ## What a request makes of the tables -/

theorem serve_of_admitted (h : req.admitted app = some call) (db : Database) :
    serve app req db = inSession req db (endpoint app req call db) := by
  unfold HttpRequest.admitted at h
  split at h
  · rename_i hlimit hrouted hkey
    cases h
    rw [serve, hlimit, hrouted, hkey]
  · cases h

/-- Only a call that gets to its endpoint touches the tables. -/
theorem serve_of_refused (h : req.admitted app = none) (db : Database) :
    (serve app req db).2 = db := by
  unfold HttpRequest.admitted at h
  unfold serve
  cases hlimit : req.overLimit with
  | some detail => rfl
  | none =>
      cases hrouted : req.routed with
      | framework reply => rfl
      | healthz => rfl
      | unreadable failure => rfl
      | metrics =>
          cases requireApiKey app.apiKey req.apiKey with
          | error failure => rfl
          | ok u => rfl
      | api call =>
          cases hkey : requireApiKey app.apiKey req.apiKey with
          | error failure => rfl
          | ok u =>
              cases call with
              | error errors => rfl
              | ok call =>
                  rw [hlimit, hrouted, hkey] at h
                  cases h

/-- The key is compared as it is. -/
theorem requireApiKey_ok {configuredKey : Text} {apiKey : Option Text}
    (h : requireApiKey configuredKey apiKey = .ok ()) :
    configuredKey = [] ∨ apiKey = some configuredKey := by
  unfold requireApiKey at h
  split at h
  · rename_i hempty
    exact .inl (List.isEmpty_iff.mp hempty)
  · dsimp only at h
    split at h
    · cases h
    · rename_i hempty
      unfold compareDigest at h
      split at h
      · cases h
      · rename_i same hsame
        split at hsame
        · cases hsame
          split at h
          · rename_i heq
            refine .inr ?_
            cases apiKey with
            | none => exact absurd rfl hempty
            | some key => exact congrArg some (of_decide_eq_true heq)
          · cases h
        · cases hsame

/-- Without the key, the response is the same on any tables and with any metrics. -/
theorem serve_outsider (hkey : app.apiKey ≠ []) (h : req.apiKey ≠ some app.apiKey)
    (db db' : Database) (exposition : Text) :
    serve app { req with exposition := exposition } db' = ((serve app req db).1, db') := by
  obtain ⟨failure, hfailure⟩ : ∃ failure, requireApiKey app.apiKey req.apiKey = .error failure := by
    cases hok : requireApiKey app.apiKey req.apiKey with
    | error failure => exact ⟨failure, rfl⟩
    | ok u => exact absurd (requireApiKey_ok hok) (not_or.mpr ⟨hkey, h⟩)
  unfold serve
  dsimp only
  rw [hfailure]
  split
  · rfl
  · split
    · rfl
    · rfl
    · rfl
    · rfl
    · rfl

end

end FeedgateFetcher
