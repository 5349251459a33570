import FeedgateFetcher.Models

/-!
# Fetch errors and their classification

`Exc` lists the exceptions that can reach the `except` clause of `fetch_one`, as
finely as `classify_error` tells them apart.
-/

namespace FeedgateFetcher

open Python

/-- An exception met while walking the causes of a failed connection. -/
inductive ConnectCause where
  | sslError
  | gaierror
  | connectionRefused
  | unknown
deriving DecidableEq, Repr

inductive Exc where
  | blockedURL (detail : Text)
  | notAFeed
  | responseTooLarge
  /-- `FallbackError`, with the exception it was raised from. -/
  | fallback (cause : Exc)
  /-- `httpx.TimeoutException` or the built-in `TimeoutError`. -/
  | timeout
  /-- `httpx.ConnectError`, with its chain of causes up to the first repetition. -/
  | connect (causes : List ConnectCause)
  | httpStatus (status : Nat)
  | tooManyRedirects
  /-- Any other `httpx.HTTPError`. -/
  | httpError
  /-- A database error of SQLAlchemy. -/
  | database
  | builtin (e : PyError)
  | unclassified
deriving DecidableEq, Repr

/-- `_classify_connect_cause`.  The exception itself is the first of the eight
links that are looked at. -/
def classifyConnectCause (causes : List ConnectCause) : ErrorCode :=
  match (causes.take 7).find? (· != .unknown) with
  | some .sslError => .tlsError
  | some .gaierror => .dns
  | some .connectionRefused => .tcpRefused
  | _ => .connection

/-- `classify_error`. -/
def classifyError : Exc → ErrorCode
  | .blockedURL _ => .blocked
  | .notAFeed => .notAFeed
  | .responseTooLarge => .tooLarge
  | .fallback .responseTooLarge => .tooLarge
  | .fallback _ => .other
  | .timeout => .timeout
  | .connect causes => classifyConnectCause causes
  | .httpStatus status =>
    if status = 410 then .http410
    else if 400 ≤ status ∧ status < 500 then .http4xx
    else .http5xx
  | .tooManyRedirects => .redirectLoop
  | .httpError => .httpError
  | .database => .other
  | .builtin _ => .other
  | .unclassified => .other

theorem classifyConnectCause_ne_http (causes : List ConnectCause) :
    classifyConnectCause causes ∈
      [ErrorCode.tlsError, .dns, .tcpRefused, .connection] := by
  unfold classifyConnectCause
  split <;> simp

/-- No failure is ever recorded as rate limiting. -/
theorem classifyError_ne_rateLimited (exc : Exc) : classifyError exc ≠ .rateLimited := by
  unfold classifyError
  split
  case h_7 causes =>
    intro h
    have := classifyConnectCause_ne_http causes
    simp [h] at this
  case h_8 => split_ifs <;> simp
  all_goals simp

theorem classifyError_httpStatus (status : Nat) :
    classifyError (.httpStatus status) ∈ [ErrorCode.http410, .http4xx, .http5xx] := by
  rw [classifyError]
  split_ifs <;> simp

/-- Only an HTTP 410 is classified as one. -/
theorem classifyError_eq_http410_iff (exc : Exc) :
    classifyError exc = .http410 ↔ exc = .httpStatus 410 := by
  constructor
  · intro h
    unfold classifyError at h
    split at h
    case h_7 causes =>
      have := classifyConnectCause_ne_http causes
      simp [h] at this
    case h_8 status =>
      split_ifs at h with h410
      exact congrArg Exc.httpStatus h410
    all_goals cases h
  · rintro rfl
    rfl

end FeedgateFetcher
