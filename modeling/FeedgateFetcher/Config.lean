import Mathlib.Data.Rat.Defs
import FeedgateFetcher.Python.Text

/-!
# Settings

The tunables of `config.Settings` that the modelled functions read, under their
environment names and with their defaults.
-/

namespace FeedgateFetcher

open Python

structure Settings where
  fetchIntervalSeconds : Int := 60
  fetchMaxBytes : Nat := 5 * 1024 * 1024
  fetchUserAgent : Text := "feedgate-fetcher/0.1.5 (+https://github.com/feedgate)".toList
  fetchMaxEntriesInitial : Int := 50
  fetchMaxEntriesPerFetch : Int := 200
  fetchClaimBatchSize : Nat := 8
  fetchClaimTtlSeconds : Int := 90
  entryFrequencyMinIntervalSeconds : Int := 300
  entryFrequencyMaxIntervalSeconds : Int := 86400
  entryFrequencyFactor : Int := 1
  brokenThreshold : Int := 3
  deadDurationDays : Int := 7
  brokenMaxBackoffSeconds : Int := 3600
  backoffJitterRatio : ℚ := 1 / 4
  deadProbeIntervalDays : Int := 7

end FeedgateFetcher
