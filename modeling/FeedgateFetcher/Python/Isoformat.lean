import FeedgateFetcher.Python.Base64

/-!
# `datetime.isoformat` and `datetime.fromisoformat`

A `datetime` with its own fields and offset, the text that `isoformat` makes of it,
and the parser of ISO 8601 texts.  The parser is the one of the C implementation of
CPython 3.12: it reads the UTF-8 bytes of the text up to a terminating zero, and is
more liberal than the format it is for.
-/

namespace FeedgateFetcher.Python

/-- A `str` as its code points; unlike a `Text` it may have lone surrogates. -/
abbrev CodePoints := List Nat

namespace CodePoints

def ofText (s : Text) : CodePoints := s.map Char.toNat

/-- The text, if there are no surrogates in it. -/
def toText? (s : CodePoints) : Option Text :=
  s.mapM fun n ↦ if n.isValidChar then some (Char.ofNat n) else none

theorem toText?_ofText (s : Text) : toText? (ofText s) = some s := by
  induction s with
  | nil => rfl
  | cons c s ih =>
      have hvalid : c.toNat.isValidChar := c.valid
      have htail : (s.map Char.toNat).mapM
          (fun n ↦ if n.isValidChar then some (Char.ofNat n) else none) = some s := ih
      simp [toText?, ofText, hvalid, htail]

end CodePoints

/-- `datetime.datetime`: the fields of the wall clock, and the offset of an aware one in
microseconds. -/
structure PyDatetime where
  year : Nat
  month : Nat
  day : Nat
  hour : Nat
  minute : Nat
  second : Nat
  microsecond : Nat
  utcoffset : Option Int
  date_valid : (1 ≤ year ∧ year ≤ 9999) ∧ (1 ≤ month ∧ month ≤ 12) ∧
    1 ≤ day ∧ day ≤ Datetime.daysInMonth year month
  time_valid : hour ≤ 23 ∧ minute ≤ 59 ∧ second ≤ 59 ∧ microsecond ≤ 999999
  offset_valid : ∀ d ∈ utcoffset, -microsPerDay < d ∧ d < microsPerDay
deriving DecidableEq, Repr

namespace PyDatetime

/-! ## Printing -/

/-- `"%0wd" % n`. -/
def zfill (w n : Nat) : Text :=
  let ds := Nat.toDigits 10 n
  List.replicate (w - ds.length) '0' ++ ds

/-- The hours, minutes and seconds of a time or an offset, with its microseconds where there are
any. -/
def formatTime (hour minute second microsecond : Nat) : Text :=
  zfill 2 hour ++ ':' :: zfill 2 minute ++ ':' :: zfill 2 second ++
    if microsecond = 0 then [] else '.' :: zfill 6 microsecond

/-- `format_utcoffset`: the seconds are left out of an offset of whole minutes. -/
def formatOffset (offset : Int) : Text :=
  let micros := offset.natAbs
  let hour := micros / 3600000000
  let minute := micros / 60000000 % 60
  let second := micros / 1000000 % 60
  let microsecond := micros % 1000000
  (if offset < 0 then '-' else '+') ::
    if second = 0 ∧ microsecond = 0 then zfill 2 hour ++ ':' :: zfill 2 minute
    else formatTime hour minute second microsecond

/-- `t.isoformat()`. -/
def isoformat (t : PyDatetime) : Text :=
  zfill 4 t.year ++ '-' :: zfill 2 t.month ++ '-' :: zfill 2 t.day ++
    'T' :: formatTime t.hour t.minute t.second t.microsecond ++
    match t.utcoffset with
    | none => []
    | some offset => formatOffset offset

/-! ## Parsing -/

/-- The byte at a position, zero at the end of the text and beyond. -/
def byteAt (b : Bytes) (i : Nat) : Nat := (b[i]?.map UInt8.toNat).getD 0

def isDigit (n : Nat) : Bool := 48 ≤ n && n ≤ 57

/-- `parse_digits`: the number that the next bytes spell. -/
def parseDigits (b : Bytes) (p : Nat) : Nat → Option Nat
  | 0 => some 0
  | n + 1 => do
    let high ← parseDigits b p n
    if isDigit (byteAt b (p + n)) then some (high * 10 + (byteAt b (p + n) - 48)) else none

/-- `ymd_to_ord`. -/
def ymdToOrd (year month day : Nat) : Nat :=
  Datetime.daysBeforeYear year + Datetime.daysBeforeMonth year month + day

/-- `ord_to_ymd`. -/
def ordToYmd (ordinal : Nat) : Nat × Nat × Nat :=
  let n := ordinal - 1
  let n400 := n / 146097
  let n := n % 146097
  let n100 := n / 36524
  let n := n % 36524
  let n4 := n / 1461
  let n := n % 1461
  let n1 := n / 365
  let n := n % 365
  let year := n400 * 400 + 1 + n100 * 100 + n4 * 4 + n1
  if n1 = 4 ∨ n100 = 4 then (year - 1, 12, 31)
  else
    let month := 1 + (List.range 11).countP fun i ↦ Datetime.daysBeforeMonth year (i + 2) ≤ n
    (year, month, n - Datetime.daysBeforeMonth year month + 1)

/-- `iso_to_ymd`. -/
def isoToYmd (isoYear isoWeek isoDay : Nat) : Option (Nat × Nat × Nat) :=
  let firstDay := ymdToOrd isoYear 1 1
  let firstWeekday := (firstDay + 6) % 7
  let longYear := firstWeekday = 3 ∨ (firstWeekday = 2 ∧ Datetime.isLeap isoYear)
  if isoYear < 1 ∨ 9999 < isoYear then none
  else if ¬(1 ≤ isoWeek ∧ (isoWeek < 53 ∨ (isoWeek = 53 ∧ longYear))) then none
  else if ¬(1 ≤ isoDay ∧ isoDay < 8) then none
  else
    let week1Monday := firstDay - firstWeekday + if 3 < firstWeekday then 7 else 0
    some (ordToYmd (week1Monday + ((isoWeek - 1) * 7 + isoDay - 1)))

/-- `_find_isoformat_datetime_separator`. -/
def findSeparator (b : Bytes) : Option Nat :=
  let dash := '-'.toNat
  let len := b.length
  if len = 7 then some 7
  else if byteAt b 4 = dash then
    if byteAt b 5 = 'W'.toNat then
      if len < 8 then none
      else if 8 < len ∧ byteAt b 8 = dash then
        if len = 9 then none
        else if 10 < len ∧ isDigit (byteAt b 10) then some 8
        else some 10
      else some 8
    else some 10
  else if byteAt b 4 = 'W'.toNat then
    let pos := 7 + ((b.drop 7).takeWhile fun c ↦ isDigit c.toNat).length
    if pos < 9 then some pos
    else if pos % 2 = 0 then some 7
    else some 8
  else some 8

/-- `parse_isoformat_date`. -/
def parseIsoformatDate (b : Bytes) (len : Nat) : Option (Nat × Nat × Nat) := do
  let dash := '-'.toNat
  let year ← parseDigits b 0 4
  let usesSeparator := byteAt b 4 = dash
  let skip := if usesSeparator then 1 else 0
  let p := 4 + skip
  if byteAt b p = 'W'.toNat then
    let isoWeek ← parseDigits b (p + 1) 2
    let p := p + 3
    if p < len then
      if usesSeparator ∧ byteAt b p ≠ dash then none
      else
        let isoDay ← parseDigits b (p + skip) 1
        isoToYmd year isoWeek isoDay
    else isoToYmd year isoWeek 1
  else
    let month ← parseDigits b p 2
    let p := p + 2
    if usesSeparator ∧ byteAt b p ≠ dash then none
    else
      let day ← parseDigits b (p + skip) 2
      some (year, month, day)

/-- The loop of `parse_hh_mm_ss_ff` over the components that are left: those it finds, and
either whether the text goes on or where the fraction starts. -/
def parseComponents (b : Bytes) (pEnd : Nat) :
    (left : Nat) → (hasSeparator : Bool) → (p : Nat) → Option (List Nat × (Bool ⊕ Nat))
  | 0, _, p => some ([], .inr p)
  | left + 1, hasSeparator, p => do
    let value ← parseDigits b p 2
    let c := byteAt b (p + 2)
    let p := p + 3
    let hasSeparator := if left = 2 then c == ':'.toNat else hasSeparator
    if pEnd ≤ p then some ([value], .inl (c != 0))
    else if hasSeparator && c == ':'.toNat then
      let (values, rest) ← parseComponents b pEnd left hasSeparator p
      some (value :: values, rest)
    else if c == '.'.toNat || c == ','.toNat then some ([value], .inr p)
    else if !hasSeparator then
      let (values, rest) ← parseComponents b pEnd left hasSeparator (p - 1)
      some (value :: values, rest)
    else none

/-- The values of `parse_hh_mm_ss_ff`. -/
structure TimeFields where
  hour : Nat
  minute : Nat
  second : Nat
  microsecond : Nat

/-- `parse_hh_mm_ss_ff`: the time, and whether the text goes on after it. -/
def parseHhMmSsFf (b : Bytes) (p pEnd : Nat) : Option (TimeFields × Bool) := do
  let (values, rest) ← parseComponents b pEnd 3 true p
  let fields (microsecond : Nat) : TimeFields :=
    ⟨values.getD 0 0, values.getD 1 0, values.getD 2 0, microsecond⟩
  match rest with
  | .inl more => some (fields 0, more)
  | .inr p =>
    let toParse := min (pEnd - p) 6
    let microsecond ← parseDigits b p toParse
    let microsecond := if toParse < 6 then microsecond * 10 ^ (6 - toParse) else microsecond
    let p := p + toParse
    let p := p + ((b.drop p).takeWhile fun c ↦ isDigit c.toNat).length
    some (fields microsecond, byteAt b p != 0)

/-- `tzinfo_from_isoformat_results`: an offset of less than a second is lost. -/
def tzFromResults (tzoffset tzmicrosecond : Int) : Option Int :=
  let offset := tzoffset * microsPerSecond + tzmicrosecond
  if tzoffset = 0 then some 0
  else if -microsPerDay < offset ∧ offset < microsPerDay then some offset
  else none

/-- `parse_isoformat_time` with the time zone of its results: the time, and the offset. -/
def parseIsoformatTime (b : Bytes) (p : Nat) : Option (TimeFields × Option Int) := do
  let pEnd := b.length
  let tzPos := p + (b.drop p).findIdx fun c ↦
    c.toNat == '+'.toNat || c.toNat == '-'.toNat || c.toNat == 'Z'.toNat
  let (time, more) ← parseHhMmSsFf b p tzPos
  if tzPos = pEnd then
    if more then none else some (time, none)
  else if byteAt b tzPos = 'Z'.toNat then
    if byteAt b (tzPos + 1) = 0 then some (time, some 0) else none
  else
    let (tz, more) ← parseHhMmSsFf b (tzPos + 1) pEnd
    let tzsign : Int := if byteAt b tzPos = '-'.toNat then -1 else 1
    if more then none
    else
      let offset ← tzFromResults
        (tzsign * (tz.hour * 3600 + tz.minute * 60 + tz.second)) (tzsign * tz.microsecond)
      some (time, some offset)

/-- The constructor, for fields that are not negative. -/
def ofFields? (date : Nat × Nat × Nat) (time : TimeFields) (utcoffset : Option Int) :
    Option PyDatetime :=
  let (year, month, day) := date
  if h : ((1 ≤ year ∧ year ≤ 9999) ∧ (1 ≤ month ∧ month ≤ 12) ∧
      1 ≤ day ∧ day ≤ Datetime.daysInMonth year month) ∧
      (time.hour ≤ 23 ∧ time.minute ≤ 59 ∧ time.second ≤ 59 ∧ time.microsecond ≤ 999999) ∧
      ∀ d ∈ utcoffset, -microsPerDay < d ∧ d < microsPerDay then
    some ⟨year, month, day, time.hour, time.minute, time.second, time.microsecond, utcoffset,
      h.1, h.2.1, h.2.2⟩
  else none

/-- The width of the separator, from its first byte. -/
def separatorWidth (first : Nat) : Nat :=
  if first < 0x80 then 1
  else if first / 16 = 0xE then 3
  else if first / 16 = 0xF then 4
  else 2

def isSurrogate (n : Nat) : Bool := 0xD800 ≤ n && n ≤ 0xDFFF

/-- `_sanitize_isoformat_str`: a surrogate that may be the separator is replaced. -/
def sanitize (s : CodePoints) : CodePoints :=
  match [7, 8, 10].find? fun i ↦ s[i]?.any isSurrogate with
  | some i => s.set i 'T'.toNat
  | none => s

/-- The parts of `fromisoformat` after the conversion to UTF-8. -/
def parseIsoformat (b : Bytes) : Option PyDatetime := do
  let separator ← findSeparator b
  let date ← parseIsoformatDate b separator
  if separator < b.length then
    let (time, utcoffset) ← parseIsoformatTime b (separator + separatorWidth (byteAt b separator))
    ofFields? date time utcoffset
  else ofFields? date ⟨0, 0, 0, 0⟩ none

/-- `datetime.fromisoformat`. -/
def fromisoformat (s : CodePoints) : Except PyError PyDatetime :=
  let parsed := do
    let text ← (sanitize s).toText?
    if s.length < 7 then none else parseIsoformat (encodeUtf8 text)
  match parsed with
  | some t => .ok t
  | none => .error .valueError

example : (fromisoformat (CodePoints.ofText "2020-W01-5T10:20:30.5-0130".toList)).map isoformat =
    .ok "2020-01-03T10:20:30.500000-01:30".toList := by
  decide +kernel

end PyDatetime

end FeedgateFetcher.Python
