import FeedgateFetcher.Python.Floats
import FeedgateFetcher.Python.Text

/-!
# `email.utils.parsedate_to_datetime`

The date parser behind `Retry-After` and `Expires`.  It accepts the three date
formats of HTTP and many malformed ones, and it is not total: besides the
documented `ValueError` it lets the `OverflowError` of an enormous time zone or
date field escape.
-/

namespace FeedgateFetcher.Python.Email

open Text

def dayNames : List Text :=
  ["mon", "tue", "wed", "thu", "fri", "sat", "sun"].map String.toList

def monthNames : List Text :=
  ["jan", "feb", "mar", "apr", "may", "jun", "jul", "aug", "sep", "oct", "nov", "dec",
    "january", "february", "march", "april", "may", "june", "july", "august", "september",
    "october", "november", "december"].map String.toList

def timezones : List (Text × Int) :=
  [("UT", 0), ("UTC", 0), ("GMT", 0), ("Z", 0), ("AST", -400), ("ADT", -300), ("EST", -500),
    ("EDT", -400), ("CST", -600), ("CDT", -500), ("MST", -700), ("MDT", -600), ("PST", -800),
    ("PDT", -700)].map fun p ↦ (p.1.toList, p.2)

/-- The digits that are not decimal digits: `int` rejects them, `str.isdigit` does not. -/
def otherDigits : List (Nat × Nat) :=
  [(0xB2, 0xB3), (0xB9, 0xB9), (0x1369, 0x1371), (0x19DA, 0x19DA), (0x2070, 0x2070),
    (0x2074, 0x2079), (0x2080, 0x2089), (0x2460, 0x2468), (0x2474, 0x247C), (0x2488, 0x2490),
    (0x24EA, 0x24EA), (0x24F5, 0x24FD), (0x24FF, 0x24FF), (0x2776, 0x277E), (0x2780, 0x2788),
    (0x278A, 0x2792), (0x10A40, 0x10A43), (0x10E60, 0x10E68), (0x11052, 0x1105A),
    (0x1F100, 0x1F10A)]

/-- `str.isdigit` on one code point. -/
def isDigit (c : Char) : Bool :=
  (digitValue c).isSome || otherDigits.any fun r ↦ r.1 ≤ c.toNat && c.toNat ≤ r.2

def dropTrailingComma (s : Text) : Text := if s.getLast? = some ',' then s.dropLast else s

/-- Drop the name of the day, with or without the space after its comma. -/
def dropDayName : List Text → List Text
  | [] => []
  | w :: ws =>
    if w.getLast? = some ',' || dayNames.contains (lower w) then ws
    else (if w.contains ',' then afterLast ',' w else w) :: ws

/-- Split the day, month and year of an RFC 850 date. -/
def splitRfc850 : List Text → List Text
  | [w, t, z] => match split '-' w with
    | [d, m, y] => [d, m, y, t, z]
    | _ => [w, t, z]
  | ws => ws

/-- Separate a time zone that follows the time without a space, or add an empty one. -/
def splitZone : List Text → List Text
  | [d, m, y, s] =>
    let i := match find '+' s with
      | some i => some i
      | none => find '-' s
    match i with
    | some (i + 1) => [d, m, y, s.take (i + 1), s.drop (i + 1)]
    | _ => [d, m, y, s, []]
  | ws => ws

/-- Hours, minutes and seconds, with `:` or, failing that, `.` between them. -/
def splitTime (tm : Text) : Option (Text × Text × Text) :=
  match split ':' tm with
  | [h, m] => some (h, m, ['0'])
  | [h, m, s] => some (h, m, s)
  | [w] => if w.contains '.' then match split '.' w with
      | [h, m] => some (h, m, ['0'])
      | [h, m, s] => some (h, m, s)
      | _ => none
    else none
  | _ => none

def zoneOffset (tz : Text) : Option Int :=
  let tz := upper tz
  let hhmm : Option Int := match timezones.lookup tz with
    | some n => some n
    | none => match toInt tz with
      | .ok n => if n = 0 && startswith ['-'] tz then none else some n
      | .error _ => none
  hhmm.map fun n ↦ n.sign * (n.natAbs / 100 * 3600 + n.natAbs % 100 * 60 : Nat)

/-- The fields of a date: year, month, day, hour, minute, second and the offset
of its time zone in seconds, `none` where the zone is unknown. -/
structure DateTuple where
  year : Int
  month : Int
  day : Int
  hour : Int
  minute : Int
  second : Int
  offset : Option Int
deriving DecidableEq, Repr

/-- `_parsedate_tz`. -/
def parsedateTz (data : Text) : Option DateTuple := do
  match (splitZone (splitRfc850 (dropDayName (splitSpace data)))).take 5 with
  | [dd, mm, yy, tm, tz] =>
    if dd.isEmpty || mm.isEmpty || yy.isEmpty then none
    else
      let (dd, mm) :=
        if monthNames.contains (lower mm) then (dd, lower mm) else (lower mm, lower dd)
      let i ← monthNames.findIdx? (· == mm)
      let month := if 12 < i + 1 then i + 1 - 12 else i + 1
      let dd := dropTrailingComma dd
      -- the time and the year may stand in either order
      let (yy, tm) := match find ':' yy with
        | some (_ + 1) => (tm, yy)
        | _ => (yy, tm)
      let yy := dropTrailingComma yy
      let c ← yy.head?
      let (yy, tz) := if isDigit c then (yy, tz) else (tz, yy)
      let (thh, tmm, tss) ← splitTime (dropTrailingComma tm)
      let yy ← (toInt yy).toOption
      let dd ← (toInt dd).toOption
      let thh ← (toInt thh).toOption
      let tmm ← (toInt tmm).toOption
      let tss ← (toInt tss).toOption
      let yy := if yy < 100 then (if 68 < yy then yy + 1900 else yy + 2000) else yy
      some ⟨yy, month, dd, thh, tmm, tss, zoneOffset tz⟩
  | _ => none

/-- A parsed date: its local fields as an instant, and its offset from UTC. -/
structure ParsedDate where
  clock : Datetime
  utcoffset : Option Timedelta
deriving DecidableEq, Repr

/-- `datetime.timezone(delta)` accepts offsets strictly between minus and plus one day. -/
def checkOffset (d : Timedelta) : Except PyError Timedelta :=
  if -microsPerDay < d.micros ∧ d.micros < microsPerDay then .ok d else .error .valueError

/-- `parsedate_to_datetime`. -/
def parsedateToDatetime (data : Text) : Except PyError ParsedDate :=
  match parsedateTz data with
  | none => .error .valueError
  | some t => match t.offset with
    | none => do
      let c ← Datetime.ofFields t.year t.month t.day t.hour t.minute t.second
      pure ⟨c, none⟩
    | some n => do
      let d ← Timedelta.ofSeconds n
      let d ← checkOffset d
      let c ← Datetime.ofFields t.year t.month t.day t.hour t.minute t.second
      pure ⟨c, some d⟩

/-- `int((parsed - now).total_seconds())`, a date without a time zone being
taken as UTC. -/
def ParsedDate.secondsAfter (p : ParsedDate) (now : Datetime) : Int :=
  PyFloat.wholeSeconds (p.clock.micros - (p.utcoffset.elim 0 Timedelta.micros) - now.micros)

example : parsedateTz "Wed, 11 Apr 2026 07:30:00 GMT".toList =
    some ⟨2026, 4, 11, 7, 30, 0, some 0⟩ := by
  decide

example : zoneOffset ['E', 'ſ', 'T'] = some (-18000) := by decide

example : parsedateToDatetime "Wed, 11 Apr 2026 07:30:00 +9999999999999999".toList =
    .error .overflowError := by
  decide

end FeedgateFetcher.Python.Email
