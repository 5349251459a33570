import FeedgateFetcher.Python.Email
import FeedgateFetcher.Python.Url
import FeedgateFetcher.Logic.Effect
import FeedgateFetcher.Fetcher.Errors
import FeedgateFetcher.FeedState
import FeedgateFetcher.Ssrf
import FeedgateFetcher.Fetcher.Policy
import FeedgateFetcher.Fetcher.Upsert
import FeedgateFetcher.Fetcher.Parser
import FeedgateFetcher.Fetcher.Transport
import FeedgateFetcher.Fetcher.Http
import FeedgateFetcher.Fetcher.Scheduler
import FeedgateFetcher.Api.Feeds
import FeedgateFetcher.Logic.Transition
import FeedgateFetcher.Logic.Lease
import FeedgateFetcher.Lifecycle
import FeedgateFetcher.Fetcher.Outcome
import FeedgateFetcher.Runs
import FeedgateFetcher.Counting
import FeedgateFetcher.Workers
import FeedgateFetcher.Durability
import FeedgateFetcher.Fetcher.EntryTable
import FeedgateFetcher.Fetcher.Paths
import FeedgateFetcher.Atomicity
import FeedgateFetcher.Scheduling
import FeedgateFetcher.Guarding
import FeedgateFetcher.Impersonation
import FeedgateFetcher.RateLimiting
import FeedgateFetcher.EntryStore
import FeedgateFetcher.Logic.Ranking
import FeedgateFetcher.EntryCaps
import FeedgateFetcher.Redirects
import FeedgateFetcher.Validators
import FeedgateFetcher.Logic.Retention
import FeedgateFetcher.Fetcher.Retention
import FeedgateFetcher.Sweeps
import FeedgateFetcher.Api.Entries
import FeedgateFetcher.EntryPages
import FeedgateFetcher.Logic.ReadCommitted
import FeedgateFetcher.Registrations
import FeedgateFetcher.Clocks
import FeedgateFetcher.Conflicts
import FeedgateFetcher.Races
import FeedgateFetcher.Polling
import FeedgateFetcher.EditTimes
import FeedgateFetcher.Logic.Backoff
import FeedgateFetcher.Fetcher.Loops
import FeedgateFetcher.Pacing
import FeedgateFetcher.Python.Unsplit
import FeedgateFetcher.UrlForms
import FeedgateFetcher.Python.AddressRanges
import FeedgateFetcher.PublicTargets
import FeedgateFetcher.Python.Base64
import FeedgateFetcher.Python.Isoformat
import FeedgateFetcher.Python.Json
import FeedgateFetcher.Api.Cursors
import FeedgateFetcher.Python.Digits
import FeedgateFetcher.Python.JsonText
import FeedgateFetcher.CursorCodec
import FeedgateFetcher.Python.JsonScan
import FeedgateFetcher.HostileCursors
import FeedgateFetcher.Api.FeedList
import FeedgateFetcher.FeedPages
import FeedgateFetcher.Logic.WorkPool
import FeedgateFetcher.Fetcher.Tick
import FeedgateFetcher.Fleet
import FeedgateFetcher.Delays
import FeedgateFetcher.Politeness
import FeedgateFetcher.Logic.Waiting
import FeedgateFetcher.Fairness
import FeedgateFetcher.Logic.Relational
import FeedgateFetcher.Committed
import FeedgateFetcher.Service
import FeedgateFetcher.Logic.Reopening
import FeedgateFetcher.Overlap
import FeedgateFetcher.StoredUrls
import FeedgateFetcher.Python.Calendar
import FeedgateFetcher.Api.EntryList
import FeedgateFetcher.EntryBrowsing
import FeedgateFetcher.Outages
import FeedgateFetcher.Python.HttpDate
import FeedgateFetcher.DatedAnswers
import FeedgateFetcher.Api.Server
import FeedgateFetcher.Site
import FeedgateFetcher.Logic.Cost
import FeedgateFetcher.OriginLoad
import FeedgateFetcher.Relocation
import FeedgateFetcher.Shutdown
import FeedgateFetcher.Churn
import FeedgateFetcher.Delivery
import FeedgateFetcher.Coherence
import FeedgateFetcher.Storage
import FeedgateFetcher.ReadLimit
