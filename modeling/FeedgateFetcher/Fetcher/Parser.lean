import FeedgateFetcher.Fetcher.Errors

/-!
# Feed parser

The wrapper around `feedparser`, a third-party parser that is a parameter of the
model: it maps a body to a `FeedParserDict` or raises.
-/

namespace FeedgateFetcher

open Python

abbrev Bytes := List UInt8

/-- The first six fields of a `time.struct_time`. -/
structure StructTime where
  year : Int
  month : Int
  day : Int
  hour : Int
  minute : Int
  second : Int
deriving DecidableEq, Repr

/-- One entry as `feedparser` returns it; `content` holds the `value` of each
content element. -/
structure FeedParserEntry where
  id : Option Text := none
  link : Option Text := none
  title : Option Text := none
  author : Option Text := none
  content : List (Option Text) := []
  summary : Option Text := none
  publishedParsed : Option StructTime := none
  updatedParsed : Option StructTime := none
deriving DecidableEq, Repr

/-- The result of `feedparser.parse`: the title and the raw `ttl` of the feed, and
its entries. -/
structure FeedParserDict where
  title : Option Text := none
  ttl : Option Text := none
  entries : List FeedParserEntry := []
deriving DecidableEq, Repr

/-- `fetcher.parser.ParsedFeed`. -/
structure ParsedFeed where
  title : Option Text
  ttlSeconds : Option Int
  entries : List ParsedEntry
deriving DecidableEq, Repr

/-- `a or b` for an optional string. -/
def orElseText (a b : Option Text) : Option Text := if a.any fun t ↦ !t.isEmpty then a else b

/-- `_struct_time_to_datetime`. -/
def structTimeToDatetime (st : Option StructTime) : Except PyError (Option Datetime) :=
  match st with
  | none => .ok none
  | some st => match Datetime.ofFields st.year st.month st.day st.hour st.minute st.second with
    | .ok t => .ok (some t)
    | .error .typeError => .ok none
    | .error .valueError => .ok none
    | .error e => .error e

/-- `_extract_content`. -/
def extractContent (e : FeedParserEntry) : Option Text :=
  orElseText (e.content.head?.join) (orElseText e.summary none)

/-- `_extract_entry`. -/
def extractEntry (e : FeedParserEntry) : Except PyError ParsedEntry := do
  let guid := (orElseText (orElseText e.id e.link) none).getD []
  let url := (orElseText e.link none).getD guid
  let publishedAt ← structTimeToDatetime (e.publishedParsed.or e.updatedParsed)
  pure
    { guid := guid
      url := url
      title := e.title
      content := extractContent e
      author := e.author
      publishedAt := publishedAt }

/-- The channel's `ttl` in seconds, when it is an integer number of minutes. -/
def ttlSeconds (ttl : Option Text) : Option Int :=
  ttl.bind fun raw ↦ match Text.toInt raw with
    | .ok n => some (max 0 n * 60)
    | .error _ => none

/-- `_parse_sync`. -/
def parseSync (d : FeedParserDict) : Except PyError ParsedFeed := do
  let entries ← d.entries.mapM extractEntry
  pure ⟨d.title, ttlSeconds d.ttl, entries⟩

/-- `parse_feed`. -/
def parseFeed (feedparser : Bytes → Option FeedParserDict) (body : Bytes) :
    Except Exc ParsedFeed :=
  match feedparser body with
  | none => .error .unclassified
  | some d => (parseSync d).mapError .builtin

/-- Every parser failure is recorded as `other`. -/
theorem classifyError_parseFeed {feedparser : Bytes → Option FeedParserDict} {body : Bytes}
    {exc : Exc} (h : parseFeed feedparser body = .error exc) : classifyError exc = .other := by
  unfold parseFeed at h
  split at h
  · cases h; rfl
  · rename_i d _
    cases hp : parseSync d with
    | ok _ => rw [hp] at h; cases h
    | error e => rw [hp] at h; cases h; rfl

end FeedgateFetcher
