import FeedgateFetcher.Python.Floats
import FeedgateFetcher.Python.Ipaddress
import FeedgateFetcher.Python.Isoformat

/-!
# `json`

`json.loads` and the part of `json.dumps` that prints objects of integers, strings and
`None`.  How deep the containers of a document may be nested in its outermost one is up
to the stack of the process and a parameter.  Strings are code points, since escapes can
spell lone surrogates.
-/

namespace FeedgateFetcher.Python

/-- A built-in exception, with those of attributes, keys and nesting. -/
inductive Raised where
  | builtin (e : PyError)
  | keyError
  | attributeError
  | recursionError
deriving DecidableEq, Repr

/-! ## Floats -/

namespace PyFloat

/-- `float(s)` for a decimal: digits, and the power of ten they are scaled by.  Powers far outside
the range of doubles are not computed. -/
def ofDecimal (digits : List Nat) (exponent : Int) : PyFloat :=
  let m := Text.ofDigits digits
  let magnitude := (Nat.toDigits 10 m).length + exponent
  if m = 0 then .finite 0
  else if 310 < magnitude then .inf false
  else if magnitude < -330 then .finite 0
  else roundDouble (m * (10 : ℚ) ^ exponent)

end PyFloat

/-! ## Documents -/

/-- The values of `json.loads`. -/
inductive Json where
  | null
  | bool (b : Bool)
  | int (n : Int)
  | float (x : PyFloat)
  | str (s : CodePoints)
  | list (items : List Json)
  | dict (pairs : List (CodePoints × Json))
deriving Repr

namespace Json

/-! ## Scanning -/

/-- `[ \\t\\n\\r]*`. -/
def skipWhitespace (s : Text) : Text := s.dropWhile fun c ↦ c ∈ [' ', '\t', '\n', '\r']

def hexValues (s : Text) : Option Nat :=
  (s.mapM IPAddress.hexValue).map fun ds ↦ ds.foldl (fun n d ↦ n * 16 + d) 0

/-- The escapes of one character. -/
def unescape : Char → Option Nat
  | '"' => some 0x22
  | '\\' => some 0x5C
  | '/' => some 0x2F
  | 'b' => some 0x08
  | 'f' => some 0x0C
  | 'n' => some 0x0A
  | 'r' => some 0x0D
  | 't' => some 0x09
  | _ => none

def isHighSurrogate (n : Nat) : Bool := 0xD800 ≤ n && n ≤ 0xDBFF

def isLowSurrogate (n : Nat) : Bool := 0xDC00 ≤ n && n ≤ 0xDFFF

/-- A high surrogate and the low one after it make one code point. -/
def joinSurrogates : CodePoints → CodePoints
  | n :: m :: s =>
    if isHighSurrogate n && isLowSurrogate m then
      (0x10000 + (n - 0xD800) * 0x400 + (m - 0xDC00)) :: joinSurrogates s
    else n :: joinSurrogates (m :: s)
  | s => s

/-- The units of a string after its opening quote, and what follows its closing quote. -/
def scanUnits : Text → Option (CodePoints × Text)
  | [] => none
  | '"' :: s => some ([], s)
  | '\\' :: 'u' :: a :: b :: c :: d :: s => do
    let n ← hexValues [a, b, c, d]
    let (ns, rest) ← scanUnits s
    some (n :: ns, rest)
  | '\\' :: c :: s => do
    let n ← unescape c
    let (ns, rest) ← scanUnits s
    some (n :: ns, rest)
  | c :: s => do
    if c.toNat < 0x20 then none
    else
      let (ns, rest) ← scanUnits s
      some (c.toNat :: ns, rest)

/-- `scanstring`, after the opening quote.  Only escapes spell surrogates, so that pairs of them
can be joined at the end. -/
def scanString (s : Text) : Except Raised (CodePoints × Text) :=
  match scanUnits s with
  | some (units, rest) => .ok (joinSurrogates units, rest)
  | none => .error (.builtin .valueError)

def isDigit (c : Char) : Bool := '0' ≤ c && c ≤ '9'

def digitsOf (s : Text) : List Nat := s.map fun c ↦ c.toNat - '0'.toNat

/-- A fraction, which must have a digit after its point: its digits, and what follows. -/
def scanFraction (s : Text) : Option (List Nat × Text) :=
  match s with
  | '.' :: s =>
    let ds := s.takeWhile isDigit
    if ds.isEmpty then none else some (digitsOf ds, s.dropWhile isDigit)
  | _ => none

/-- An exponent, which must have a digit. -/
def scanExponent (s : Text) : Option (Int × Text) :=
  match s with
  | c :: s =>
    if c = 'e' ∨ c = 'E' then
      let (negative, s) := match s with
        | '-' :: s => (true, s)
        | '+' :: s => (false, s)
        | s => (false, s)
      let ds := s.takeWhile isDigit
      let n : Int := Text.ofDigits (digitsOf ds)
      if ds.isEmpty then none else some (if negative then -n else n, s.dropWhile isDigit)
    else none
  | [] => none

/-- The digits of an integer, without leading zeros. -/
def scanInteger (s : Text) : Option (List Nat × Text) :=
  match s with
  | c :: s =>
    if c = '0' then some ([0], s)
    else if isDigit c then
      some (digitsOf (c :: s.takeWhile isDigit), s.dropWhile isDigit)
    else none
  | [] => none

/-- The value of a number: an `int` if it has neither fraction nor exponent. -/
def numberValue (negative : Bool) (ds : List Nat) (fraction : Option (List Nat))
    (exponent : Option Int) : Except Raised Json :=
  match fraction, exponent with
  | none, none =>
    if Text.maxStrDigits < ds.length then .error (.builtin .valueError)
    else
      let n : Int := Text.ofDigits ds
      .ok (.int (if negative then -n else n))
  | _, _ =>
    let fs := fraction.getD []
    let x := PyFloat.ofDecimal (ds ++ fs) (exponent.getD 0 - fs.length)
    .ok (.float (if negative then x.neg else x))

/-- `_match_number`. -/
def scanNumber (s : Text) : Except Raised (Json × Text) :=
  let (negative, s) := match s with
    | '-' :: s => (true, s)
    | s => (false, s)
  match scanInteger s with
  | none => .error (.builtin .valueError)
  | some (ds, s) =>
    let (fraction, s) := match scanFraction s with
      | some (fs, s) => (some fs, s)
      | none => (none, s)
    let (exponent, s) := match scanExponent s with
      | some (e, s) => (some e, s)
      | none => (none, s)
    (numberValue negative ds fraction exponent).map fun v ↦ (v, s)

/-- A step of `scan_once` that reads a value off a text. -/
abbrev Scanner := Text → Except Raised (Json × Text)

/-- The items of an array that is not empty; every item takes one unit of `fuel`. -/
def scanItems (item : Scanner) : (fuel : Nat) → Text → Except Raised (List Json × Text)
  | 0, _ => .error (.builtin .valueError)
  | fuel + 1, s => do
    let (v, s) ← item s
    match skipWhitespace s with
    | ']' :: s => pure ([v], s)
    | ',' :: s =>
      let (vs, s) ← scanItems item fuel (skipWhitespace s)
      pure (v :: vs, s)
    | _ => throw (.builtin .valueError)

/-- `_parse_array`, after the bracket. -/
def scanArray (item : Scanner) : Scanner := fun s ↦
  match skipWhitespace s with
  | ']' :: s => .ok (.list [], s)
  | s => (scanItems item s.length s).map fun r ↦ (.list r.1, r.2)

/-- The pairs of an object that is not empty; every pair takes one unit of `fuel`. -/
def scanPairs (item : Scanner) :
    (fuel : Nat) → Text → Except Raised (List (CodePoints × Json) × Text)
  | 0, _ => .error (.builtin .valueError)
  | fuel + 1, s =>
    match s with
    | '"' :: s => do
      let (key, s) ← scanString s
      match skipWhitespace s with
      | ':' :: s =>
        let (v, s) ← item (skipWhitespace s)
        match skipWhitespace s with
        | '}' :: s => pure ([(key, v)], s)
        | ',' :: s =>
          let (kvs, s) ← scanPairs item fuel (skipWhitespace s)
          pure ((key, v) :: kvs, s)
        | _ => throw (.builtin .valueError)
      | _ => throw (.builtin .valueError)
    | _ => .error (.builtin .valueError)

/-- `_parse_object`, after the brace. -/
def scanObject (item : Scanner) : Scanner := fun s ↦
  match skipWhitespace s with
  | '}' :: s => .ok (.dict [], s)
  | s => (scanPairs item s.length s).map fun r ↦ (.dict r.1, r.2)

/-- `scan_once`, with the scanners of the two containers. -/
def scanValue (object array : Scanner) : Scanner := fun s ↦
  match s with
  | '"' :: s => (scanString s).map fun r ↦ (.str r.1, r.2)
  | '{' :: s => object s
  | '[' :: s => array s
  | 'n' :: 'u' :: 'l' :: 'l' :: s => .ok (.null, s)
  | 't' :: 'r' :: 'u' :: 'e' :: s => .ok (.bool true, s)
  | 'f' :: 'a' :: 'l' :: 's' :: 'e' :: s => .ok (.bool false, s)
  | 'N' :: 'a' :: 'N' :: s => .ok (.float .nan, s)
  | 'I' :: 'n' :: 'f' :: 'i' :: 'n' :: 'i' :: 't' :: 'y' :: s => .ok (.float (.inf false), s)
  | '-' :: 'I' :: 'n' :: 'f' :: 'i' :: 'n' :: 'i' :: 't' :: 'y' :: s =>
    .ok (.float (.inf true), s)
  | s => scanNumber s

/-- `scan_once`, for containers nested this deep. -/
def scanOnce : (depth : Nat) → Scanner
  | 0 => scanValue (fun _ ↦ .error .recursionError) fun _ ↦ .error .recursionError
  | depth + 1 => scanValue (scanObject (scanOnce depth)) (scanArray (scanOnce depth))

/-- `json.loads(s)`, for containers nested this deep in the outermost one. -/
def loads (depth : Nat) (s : Text) : Except Raised Json :=
  if s.head? = some '\ufeff' then .error (.builtin .valueError)
  else do
    let (v, rest) ← scanOnce (depth + 1) (skipWhitespace s)
    if (skipWhitespace rest).isEmpty then pure v else throw (.builtin .valueError)

/-! ## Printing -/

/-- The values of the objects that are printed. -/
inductive Scalar where
  | null
  | int (n : Int)
  | str (s : CodePoints)
deriving DecidableEq, Repr

def Scalar.toJson : Scalar → Json
  | .null => .null
  | .int n => .int n
  | .str s => .str s

/-- `\\uXXXX`. -/
def escapeUnit (n : Nat) : Text :=
  let ds := Nat.toDigits 16 n
  '\\' :: 'u' :: (List.replicate (4 - ds.length) '0' ++ ds)

/-- `py_encode_basestring_ascii` on one code point. -/
def escape (n : Nat) : Text :=
  if n = 0x22 then ['\\', '"']
  else if n = 0x5C then ['\\', '\\']
  else if 0x20 ≤ n ∧ n ≤ 0x7E then [Char.ofNat n]
  else if n = 0x08 then ['\\', 'b']
  else if n = 0x0C then ['\\', 'f']
  else if n = 0x0A then ['\\', 'n']
  else if n = 0x0D then ['\\', 'r']
  else if n = 0x09 then ['\\', 't']
  else if n < 0x10000 then escapeUnit n
  else escapeUnit (0xD800 + (n - 0x10000) / 0x400) ++ escapeUnit (0xDC00 + (n - 0x10000) % 0x400)

def dumpsStr (s : CodePoints) : Text := '"' :: (s.flatMap escape ++ ['"'])

/-- `str(n)`. -/
def dumpsInt (n : Int) : Except PyError Text :=
  let ds := Nat.toDigits 10 n.natAbs
  if Text.maxStrDigits < ds.length then .error .valueError
  else .ok (if n < 0 then '-' :: ds else ds)

def dumpsScalar : Scalar → Except PyError Text
  | .null => .ok "null".toList
  | .int n => dumpsInt n
  | .str s => .ok (dumpsStr s)

/-- The pairs of an object, between commas. -/
def dumpsPairs : List (CodePoints × Scalar) → Except PyError Text
  | [] => .ok []
  | [(key, v)] => (dumpsScalar v).map fun t ↦ dumpsStr key ++ ':' :: t
  | (key, v) :: kvs => do
    let t ← dumpsScalar v
    let ts ← dumpsPairs kvs
    pure (dumpsStr key ++ ':' :: t ++ ',' :: ts)

/-- `json.dumps(payload, separators=(",", ":"))`. -/
def dumps (pairs : List (CodePoints × Scalar)) : Except PyError Text :=
  (dumpsPairs pairs).map fun t ↦ '\x7b' :: (t ++ ['\x7d'])

/-! ## Using a document -/

/-- The last value of a key. -/
def lookup (key : CodePoints) (pairs : List (CodePoints × Json)) : Option Json :=
  (pairs.reverse.find? fun kv ↦ kv.1 = key).map Prod.snd

/-- `payload.get(key)`, with `None` for a key that is missing. -/
def get (key : CodePoints) : Json → Except Raised Json
  | .dict pairs => .ok ((lookup key pairs).getD .null)
  | _ => .error .attributeError

/-- `payload[key]`, for a string as the key. -/
def getItem (key : CodePoints) : Json → Except Raised Json
  | .dict pairs => match lookup key pairs with
    | some v => .ok v
    | none => .error .keyError
  | _ => .error (.builtin .typeError)

/-- `bool(v)`. -/
def truthy : Json → Bool
  | .null => false
  | .bool b => b
  | .int n => n ≠ 0
  | .float x => x ≠ .finite 0
  | .str s => !s.isEmpty
  | .list items => !items.isEmpty
  | .dict pairs => !pairs.isEmpty

/-- `int(v)`. -/
def toInt : Json → Except PyError Int
  | .bool b => .ok (if b then 1 else 0)
  | .int n => .ok n
  | .float x => x.toInt
  | .str s => match s.toText? with
    | some t => Text.toInt t
    | none => .error .valueError
  | _ => .error .typeError

/-- `datetime.fromisoformat(v)`. -/
def fromisoformat : Json → Except PyError PyDatetime
  | .str s => PyDatetime.fromisoformat s
  | _ => .error .typeError

end Json

end FeedgateFetcher.Python
