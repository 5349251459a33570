import FeedgateFetcher.Python.Text

/-!
# The tables

Rows of the `feeds` and `entries` tables.  `status` and `last_error_code` are
strings in the schema; the application writes and compares them only through the
enumerations `FeedStatus` and `ErrorCode`, which are used here.
-/

namespace FeedgateFetcher

open Python

inductive FeedStatus where
  | active
  | broken
  | dead
deriving DecidableEq, Repr

inductive ErrorCode where
  | dns
  | tcpRefused
  | tlsError
  | timeout
  | connection
  | http4xx
  | http410
  | http5xx
  | httpError
  | rateLimited
  | notAFeed
  | redirectLoop
  | tooLarge
  | blocked
  | other
deriving DecidableEq, Repr

/-- A row of `feeds`. -/
@[ext]
structure Feed where
  id : Int
  url : Text
  effectiveUrl : Text
  title : Option Text
  status : FeedStatus
  lastSuccessfulFetchAt : Option Datetime
  lastAttemptAt : Option Datetime
  lastErrorCode : Option ErrorCode
  createdAt : Datetime
  nextFetchAt : Datetime
  consecutiveFailures : Int
  etag : Option Text
  lastModified : Option Text
deriving DecidableEq, Repr

/-- The row that `create_feed` inserts: the columns it names, and the defaults
of the schema, with `dbNow` the clock of the inserting transaction. -/
def Feed.registered (id : Int) (url : Text) (now dbNow : Datetime) : Feed where
  id := id
  url := url
  effectiveUrl := url
  title := none
  status := .active
  lastSuccessfulFetchAt := none
  lastAttemptAt := none
  lastErrorCode := none
  createdAt := dbNow
  nextFetchAt := now
  consecutiveFailures := 0
  etag := none
  lastModified := none

/-- A row of `entries`. -/
@[ext]
structure Entry where
  id : Int
  feedId : Int
  guid : Text
  url : Text
  title : Option Text
  content : Option Text
  author : Option Text
  publishedAt : Option Datetime
  fetchedAt : Datetime
  contentUpdatedAt : Datetime
deriving DecidableEq, Repr

/-- `fetcher.upsert.ParsedEntry`. -/
structure ParsedEntry where
  guid : Text
  url : Text
  title : Option Text
  content : Option Text
  author : Option Text
  publishedAt : Option Datetime
deriving DecidableEq, Repr

end FeedgateFetcher
