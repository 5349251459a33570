import FeedgateFetcher.Api.Feeds
import FeedgateFetcher.Python.Json

/-!
# Cursors

The texts of the cursors of both listings: a small JSON document in URL-safe base64
without its pads.
-/

namespace FeedgateFetcher

open Python

/-- The exceptions of the `except` clause. -/
def isInvalidCursor : Raised → Bool
  | .builtin .valueError | .builtin .typeError | .keyError => true
  | _ => false

/-- `except (ValueError, KeyError, TypeError)`: other exceptions escape. -/
def orInvalidCursor {α : Type} (r : Except Raised α) : Except (HttpException ⊕ Raised) α :=
  r.mapError fun exc ↦
    if isInvalidCursor exc then .inl ⟨400, "invalid cursor".toList⟩ else .inr exc

/-- `json.loads(base64.urlsafe_b64decode(cursor + padding).decode())`. -/
def loadsCursor (depth : Nat) (cursor : Text) : Except Raised Json := do
  let raw ← (Base64.urlsafeB64decode (cursor ++ Base64.padding cursor)).mapError .builtin
  match decodeUtf8 raw with
  | none => throw (.builtin .valueError)
  | some text => Json.loads depth text

/-- `base64.urlsafe_b64encode(json.dumps(payload).encode()).decode().rstrip("=")`. -/
def dumpsCursor (payload : List (CodePoints × Json.Scalar)) : Except PyError Text :=
  (Json.dumps payload).map fun raw ↦
    Text.rstripWhere (· == '=') (Base64.urlsafeB64encode (encodeUtf8 raw))

def keyP : CodePoints := CodePoints.ofText ['p']

def keyI : CodePoints := CodePoints.ofText ['i']

/-! ## `api/entries.py` -/

/-- `_encode_cursor`. -/
def encodeCursor (publishedAt : Option PyDatetime) (entryId : Int) : Except PyError Text :=
  let p := match publishedAt with
    | some t => .str (CodePoints.ofText t.isoformat)
    | none => .null
  dumpsCursor [(keyP, p), (keyI, .int entryId)]

/-- `_decode_cursor`. -/
def decodeCursor (depth : Nat) (cursor : Text) :
    Except (HttpException ⊕ Raised) (Option PyDatetime × Int) :=
  orInvalidCursor do
    let payload ← loadsCursor depth cursor
    let pRaw ← payload.get keyP
    let pub ← if pRaw.truthy then (pRaw.fromisoformat.map some).mapError .builtin else pure none
    let i ← payload.getItem keyI
    let n ← i.toInt.mapError .builtin
    pure (pub, n)

/-! ## `api/feeds.py` -/

/-- `_encode_feed_cursor`. -/
def encodeFeedCursor (feedId : Int) : Except PyError Text := dumpsCursor [(keyI, .int feedId)]

/-- `_decode_feed_cursor`. -/
def decodeFeedCursor (depth : Nat) (cursor : Text) : Except (HttpException ⊕ Raised) Int :=
  orInvalidCursor do
    let payload ← loadsCursor depth cursor
    let i ← payload.getItem keyI
    i.toInt.mapError .builtin

/-! ## The keys of a document -/

/-- What `_decode_cursor` reads off its document. -/
def entryKeyOf (payload : Json) : Except Raised (Option PyDatetime × Int) := do
  let pRaw ← payload.get keyP
  let pub ← if pRaw.truthy then (pRaw.fromisoformat.map some).mapError .builtin else pure none
  let i ← payload.getItem keyI
  let n ← i.toInt.mapError .builtin
  pure (pub, n)

/-- What `_decode_feed_cursor` reads off its document. -/
def feedKeyOf (payload : Json) : Except Raised Int := do
  let i ← payload.getItem keyI
  i.toInt.mapError .builtin

theorem decodeCursor_eq (depth : Nat) (cursor : Text) :
    decodeCursor depth cursor = orInvalidCursor (loadsCursor depth cursor >>= entryKeyOf) := rfl

theorem decodeFeedCursor_eq (depth : Nat) (cursor : Text) :
    decodeFeedCursor depth cursor = orInvalidCursor (loadsCursor depth cursor >>= feedKeyOf) := rfl

end FeedgateFetcher
