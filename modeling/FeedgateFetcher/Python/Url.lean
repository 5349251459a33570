import FeedgateFetcher.Python.Ipaddress

/-!
# `urllib.parse`

Splitting a URL into its five components and putting them together again, and the
host of the authority.  The check of `urlsplit` against authorities that normalise
into delimiters applies to non-ASCII authorities only; the URLs of this service
are punycoded before they are stored, so it is left out.
-/

namespace FeedgateFetcher.Python

open Text

/-- `urllib.parse.SplitResult`. -/
structure SplitResult where
  scheme : Text
  netloc : Text
  path : Text
  query : Text
  fragment : Text
deriving DecidableEq, Repr

namespace SplitResult

def isAsciiAlpha (c : Char) : Bool := ('a' ≤ c && c ≤ 'z') || ('A' ≤ c && c ≤ 'Z')

def isSchemeChar (c : Char) : Bool :=
  isAsciiAlpha c || IPAddress.isAsciiDigit c || c == '+' || c == '-' || c == '.'

/-- Leading control characters and spaces are dropped, tabs and line breaks removed. -/
def clean (url : Text) : Text :=
  (lstripWhere (fun c ↦ c.toNat ≤ 32) url).filter fun c ↦ c != '\t' && c != '\r' && c != '\n'

/-- The lower-cased scheme and what follows its colon. -/
def splitScheme (url : Text) : Text × Text :=
  match find ':' url with
  | some (i + 1) =>
    let s := url.take (i + 1)
    if (s.head?.any isAsciiAlpha) && s.all isSchemeChar then (lower s, url.drop (i + 2))
    else ([], url)
  | _ => ([], url)

/-- `_splitnetloc`, after the leading `//`. -/
def splitNetloc (url : Text) : Text × Text :=
  match url with
  | '/' :: '/' :: rest => rest.span fun c ↦ c != '/' && c != '?' && c != '#'
  | _ => ([], url)

def isHexDigit (c : Char) : Bool := (IPAddress.hexValue c).isSome

/-- `_check_bracketed_host`: a bracketed host is an IPv6 address or an `IPvFuture`. -/
def checkBracketedHost (h : Text) : Bool :=
  match h with
  | 'v' :: s =>
    let (hex, dot, rest) := partition '.' s
    !hex.isEmpty && hex.all isHexDigit && dot && !rest.isEmpty
  | _ => match IPAddress.parse h with
    | some (.v6 _) => true
    | _ => false

def checkBrackets (netloc : Text) : Bool :=
  let opening := netloc.contains '['
  let closing := netloc.contains ']'
  if opening && closing then checkBracketedHost (partition ']' (partition '[' netloc).2.2).1
  else !opening && !closing

/-- `urlsplit(url)`. -/
def urlsplit (url : Text) : Except PyError SplitResult :=
  let (scheme, rest) := splitScheme (clean url)
  let (netloc, rest) := splitNetloc rest
  if !checkBrackets netloc then .error .valueError
  else
    let (rest, _, fragment) := partition '#' rest
    let (path, _, query) := partition '?' rest
    .ok ⟨scheme, netloc, path, query, fragment⟩

/-- `SplitResult.hostname`: without user and port, lower-cased up to a zone. -/
def hostname (r : SplitResult) : Option Text :=
  let hostinfo := afterLast '@' r.netloc
  let (before, opened, bracketed) := partition '[' hostinfo
  let host := if opened then (partition ']' bracketed).1 else (partition ':' before).1
  if host.isEmpty then none
  else
    let (name, zoned, zone) := partition '%' host
    some (lower name ++ if zoned then '%' :: zone else [])

example : (urlsplit "HTTP://u@Ex.com:80/a?b#c".toList).map (fun r ↦ (r.scheme, r.hostname)) =
    .ok ("http".toList, some "ex.com".toList) := by
  decide

/-- `uses_netloc`. -/
def usesNetloc : List Text :=
  ["", "ftp", "http", "gopher", "nntp", "telnet", "imap", "wais", "file", "mms", "https", "shttp",
    "snews", "prospero", "rtsp", "rtsps", "rtspu", "rsync", "svn", "svn+ssh", "sftp", "nfs", "git",
    "git+ssh", "ws", "wss", "itms-services"].map String.toList

/-- The path with the authority in front. -/
def unsplitNetloc (r : SplitResult) : Text :=
  if !r.netloc.isEmpty then
    let path := if !r.path.isEmpty && !startswith ['/'] r.path then '/' :: r.path else r.path
    '/' :: '/' :: r.netloc ++ path
  else if startswith ['/', '/'] r.path ||
      !r.scheme.isEmpty && usesNetloc.contains r.scheme &&
        (r.path.isEmpty || startswith ['/'] r.path) then
    '/' :: '/' :: r.path
  else r.path

/-- `urlunsplit`. -/
def urlunsplit (r : SplitResult) : Text :=
  let url := unsplitNetloc r
  let url := if !r.scheme.isEmpty then r.scheme ++ ':' :: url else url
  let url := if !r.query.isEmpty then url ++ '?' :: r.query else url
  if !r.fragment.isEmpty then url ++ '#' :: r.fragment else url

end SplitResult

end FeedgateFetcher.Python
