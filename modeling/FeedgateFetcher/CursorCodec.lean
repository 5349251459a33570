import FeedgateFetcher.Api.Cursors
import FeedgateFetcher.Python.IsoformatText
import FeedgateFetcher.Python.JsonText

/-!
# The codec of the cursors

A cursor is a printed document in base64, with the pads of the encoding left out.
Decoding finds them again from the length of what is left, so every key comes back, and
no two keys share a cursor.
-/

namespace FeedgateFetcher

open Python

/-! ## Codecs -/

/-- On some keys, `decode` takes back what `encode` prints, in an alphabet of its own. -/
structure IsCodec {α ε δ : Type} (keys : Set α) (alphabet : Char → Bool)
    (encode : α → Except ε Text) (decode : Text → Except δ α) : Prop where
  decode_encode : ∀ key ∈ keys, ∃ text, encode key = .ok text ∧ decode text = .ok key
  mem_alphabet : ∀ key ∈ keys, ∀ text, encode key = .ok text → ∀ c ∈ text, alphabet c
  injOn : Set.InjOn encode keys

theorem IsCodec.mk' {α ε δ : Type} {keys : Set α} {alphabet : Char → Bool}
    {encode : α → Except ε Text} {decode : Text → Except δ α}
    (h : ∀ key ∈ keys, ∃ text, encode key = .ok text ∧ (∀ c ∈ text, alphabet c) ∧
      decode text = .ok key) : IsCodec keys alphabet encode decode where
  decode_encode key hkey := by
    obtain ⟨text, hencode, _, hdecode⟩ := h key hkey
    exact ⟨text, hencode, hdecode⟩
  mem_alphabet key hkey text htext := by
    obtain ⟨text', hencode, hchars, _⟩ := h key hkey
    cases htext.symm.trans hencode
    exact hchars
  injOn key hkey key' hkey' heq := by
    obtain ⟨text, hencode, _, hdecode⟩ := h key hkey
    obtain ⟨text', hencode', _, hdecode'⟩ := h key' hkey'
    cases hencode.symm.trans (heq.trans hencode')
    cases hdecode.symm.trans hdecode'
    rfl

/-! ## Documents as cursors -/

/-- A document that can be printed has a cursor without pads, from which it is read again. -/
theorem loadsCursor_dumpsCursor (payload : List (CodePoints × Json.Scalar)) (depth : Nat)
    (htext : ∀ kv ∈ payload, Json.IsTextPair kv) (hprint : ∀ kv ∈ payload, Json.IsPrintable kv) :
    ∃ cursor, dumpsCursor payload = .ok cursor ∧ (∀ c ∈ cursor, Base64.isUrlsafeChar c) ∧
      loadsCursor depth cursor = .ok (.dict (payload.map fun kv ↦ (kv.1, kv.2.toJson))) := by
  obtain ⟨raw, hraw⟩ := Json.dumps_ok hprint
  obtain ⟨hchars, hdecode⟩ := Base64.urlsafe_rstrip (encodeUtf8 raw)
  refine ⟨_, by rw [dumpsCursor, hraw]; rfl, hchars, ?_⟩
  rw [loadsCursor, hdecode]
  simp only [Except.mapError, bind, Except.bind, decodeUtf8_encodeUtf8]
  exact Json.loads_dumps depth htext hraw

/-! ## The keys -/

theorem isValidChar_ofText (s : Text) : ∀ n ∈ CodePoints.ofText s, n.isValidChar := by
  intro n hn
  obtain ⟨c, _, rfl⟩ := List.mem_map.mp hn
  exact c.valid

/-- The ids that Python prints. -/
def PrintableId (id : Int) : Prop := id.natAbs < 10 ^ Text.maxStrDigits

/-- The keys of the listing of entries: their dates, naive ones included, are those that
`fromisoformat` takes back from `isoformat`. -/
def EntryKey (key : Option PyDatetime × Int) : Prop :=
  PrintableId key.2 ∧
    ∀ t ∈ key.1, PyDatetime.fromisoformat (CodePoints.ofText t.isoformat) = .ok t

/-- Offsets of less than a second apart, every date is taken back. -/
theorem entryKey_iff {key : Option PyDatetime × Int} : EntryKey key ↔
    PrintableId key.2 ∧ ∀ t ∈ key.1, ∀ d ∈ t.utcoffset, d = 0 ∨ 1000000 ≤ d.natAbs := by
  simp only [EntryKey, PyDatetime.fromisoformat_isoformat_iff]

/-- The document of a key. -/
def entryPayload (key : Option PyDatetime × Int) : List (CodePoints × Json.Scalar) :=
  [(keyP, key.1.elim .null fun t ↦ .str (CodePoints.ofText t.isoformat)), (keyI, .int key.2)]

theorem encodeCursor_eq (key : Option PyDatetime × Int) :
    encodeCursor key.1 key.2 = dumpsCursor (entryPayload key) := by
  obtain ⟨publishedAt, id⟩ := key
  cases publishedAt with
  | none => rfl
  | some t => rfl

theorem isTextPair_int (id : Int) : Json.IsTextPair (keyI, .int id) :=
  ⟨isValidChar_ofText _, trivial⟩

theorem isPrintable_int {id : Int} (h : PrintableId id) : Json.IsPrintable (keyI, .int id) := by
  intro n hn
  cases hn
  exact h

theorem entryKeyOf_entryPayload {key : Option PyDatetime × Int} (h : EntryKey key) :
    entryKeyOf (.dict ((entryPayload key).map fun kv ↦ (kv.1, kv.2.toJson))) = .ok key := by
  obtain ⟨publishedAt, id⟩ := key
  cases publishedAt with
  | none => rfl
  | some t =>
      obtain ⟨c, s, hs⟩ := List.exists_cons_of_length_pos
        (Nat.zero_lt_of_lt (PyDatetime.lt_length_isoformat t))
      have hget : (Json.dict ((entryPayload (some t, id)).map fun kv ↦ (kv.1, kv.2.toJson))).get
          keyP = .ok (.str (CodePoints.ofText t.isoformat)) := rfl
      have htruthy : (Json.str (CodePoints.ofText t.isoformat)).truthy = true := by
        rw [hs]
        rfl
      have hdate : (Json.str (CodePoints.ofText t.isoformat)).fromisoformat = .ok t := h.2 t rfl
      rw [entryKeyOf, hget]
      simp only [bind, Except.bind, htruthy, if_true, hdate]
      rfl

theorem decodeCursor_encodeCursor (depth : Nat) {key : Option PyDatetime × Int}
    (h : EntryKey key) :
    ∃ cursor, encodeCursor key.1 key.2 = .ok cursor ∧ (∀ c ∈ cursor, Base64.isUrlsafeChar c) ∧
      decodeCursor depth cursor = .ok key := by
  have htext : ∀ kv ∈ entryPayload key, Json.IsTextPair kv := by
    refine List.forall_mem_cons.mpr ⟨⟨isValidChar_ofText _, ?_⟩,
      List.forall_mem_singleton.mpr (isTextPair_int key.2)⟩
    cases key.1 with
    | none => trivial
    | some t => exact isValidChar_ofText _
  have hprint : ∀ kv ∈ entryPayload key, Json.IsPrintable kv := by
    refine List.forall_mem_cons.mpr ⟨?_, List.forall_mem_singleton.mpr (isPrintable_int h.1)⟩
    intro n hn
    cases hkey : key.1 with
    | none =>
        rw [hkey] at hn
        cases hn
    | some t =>
        rw [hkey] at hn
        cases hn
  obtain ⟨cursor, hencode, hchars, hloads⟩ := loadsCursor_dumpsCursor _ depth htext hprint
  refine ⟨cursor, (encodeCursor_eq key).trans hencode, hchars, ?_⟩
  have hkey := entryKeyOf_entryPayload h
  rw [decodeCursor_eq, hloads]
  exact congrArg orInvalidCursor hkey

theorem decodeFeedCursor_encodeFeedCursor (depth : Nat) {id : Int} (h : PrintableId id) :
    ∃ cursor, encodeFeedCursor id = .ok cursor ∧ (∀ c ∈ cursor, Base64.isUrlsafeChar c) ∧
      decodeFeedCursor depth cursor = .ok id := by
  obtain ⟨cursor, hencode, hchars, hloads⟩ :=
    loadsCursor_dumpsCursor [(keyI, .int id)] depth
      (List.forall_mem_singleton.mpr (isTextPair_int id))
      (List.forall_mem_singleton.mpr (isPrintable_int h))
  refine ⟨cursor, hencode, hchars, ?_⟩
  rw [decodeFeedCursor_eq, hloads]
  rfl

/-- Both pairs of functions are codecs over the URL-safe alphabet, which has no pad in it. -/
theorem cursors_areCodecs (depth : Nat) :
    IsCodec EntryKey Base64.isUrlsafeChar (fun key ↦ encodeCursor key.1 key.2)
        (decodeCursor depth) ∧
      IsCodec PrintableId Base64.isUrlsafeChar encodeFeedCursor (decodeFeedCursor depth) := by
  constructor
  · exact IsCodec.mk' fun key hkey ↦ decodeCursor_encodeCursor depth hkey
  · exact IsCodec.mk' fun id hid ↦ decodeFeedCursor_encodeFeedCursor depth hid

end FeedgateFetcher
