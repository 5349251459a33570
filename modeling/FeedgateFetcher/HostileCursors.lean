import FeedgateFetcher.Api.Cursors
import FeedgateFetcher.Python.JsonScan

/-!
# Hostile cursors

What the decoders do with texts that the service did not print.  They catch three types of
exception, and look neither at the size of the id nor at the offset of the date.  This
module says of which documents they make a key that the query can take, or an answer with
status 400, and which ones get past them.
-/

namespace FeedgateFetcher

open Python

/-! ## Clean outcomes -/

/-- The values of the id columns. -/
def IsColumnId (n : Int) : Prop := -2147483648 ≤ n ∧ n ≤ 2147483647

/-- A key for the query over entries.  What the database driver takes as a date beyond its
having an offset is left to `accepts`. -/
structure FitsEntries (accepts : PyDatetime → Prop) (key : Option PyDatetime × Int) : Prop where
  date : ∀ t ∈ key.1, t.utcoffset.isSome ∧ accepts t
  id : IsColumnId key.2

/-- A key that fits the query, or `HTTPException` with status 400. -/
def IsClean {α : Type} (fits : α → Prop) : Except (HttpException ⊕ Raised) α → Prop
  | .ok key => fits key
  | .error (.inl exc) => exc.statusCode = 400
  | .error (.inr _) => False

/-- The `try` block ends in an exception that is caught. -/
def Rejects {α : Type} (r : Except Raised α) : Prop := ∃ e, r = .error e ∧ isInvalidCursor e

/-- The `try` block ends in a value that fits. -/
def Yields {α : Type} (fits : α → Prop) (r : Except Raised α) : Prop := ∃ a, r = .ok a ∧ fits a

section

variable {α : Type} {fits : α → Prop} {a : α} {e : Raised}

@[simp] theorem rejects_ok : ¬Rejects (.ok a : Except Raised α) := by
  rintro ⟨e, he, _⟩
  cases he

@[simp] theorem rejects_error : Rejects (.error e : Except Raised α) ↔ isInvalidCursor e := by
  refine ⟨?_, fun h ↦ ⟨e, rfl, h⟩⟩
  rintro ⟨e', he, h⟩
  cases he
  exact h

@[simp] theorem yields_ok : Yields fits (.ok a) ↔ fits a := by
  refine ⟨?_, fun h ↦ ⟨a, rfl, h⟩⟩
  rintro ⟨b, hb, h⟩
  cases hb
  exact h

@[simp] theorem yields_error : ¬Yields fits (.error e) := by
  rintro ⟨a, ha, _⟩
  cases ha

theorem isClean_orInvalidCursor {r : Except Raised α} :
    IsClean fits (orInvalidCursor r) ↔ Rejects r ∨ Yields fits r := by
  cases r with
  | ok a =>
      have hok : orInvalidCursor (.ok a : Except Raised α) = .ok a := rfl
      rw [hok]
      simp [IsClean]
  | error e =>
      cases he : isInvalidCursor e with
      | true =>
          have hcaught : orInvalidCursor (.error e : Except Raised α) =
              .error (.inl ⟨400, "invalid cursor".toList⟩) := by
            simp [orInvalidCursor, Except.mapError, he]
          rw [hcaught]
          simp [IsClean, he]
      | false =>
          have hescapes : orInvalidCursor (.error e : Except Raised α) = .error (.inr e) := by
            simp [orInvalidCursor, Except.mapError, he]
          rw [hescapes]
          simp [IsClean, he]

end

/-! ## Ids -/

/-- Under `"i"`: nothing, or a value that `int` refuses with an exception that is caught. -/
def RejectedId : Option Json → Prop
  | some (.bool _) | some (.int _) | some (.float (.inf _)) | some (.float (.finite _)) => False
  | some (.str s) => ∀ t n, s.toText? = some t → Text.toInt t ≠ .ok n
  | _ => True

/-- Under `"i"`: a truth value, a number near the range of the column, or a numeral in it. -/
def FitsId : Option Json → Prop
  | some (.bool _) => True
  | some (.int n) => IsColumnId n
  | some (.float (.finite q)) => -2147483649 < q ∧ q < 2147483648
  | some (.str s) => ∃ t n, s.toText? = some t ∧ Text.toInt t = .ok n ∧ IsColumnId n
  | _ => False

/-- `int(payload["i"])`, for what an object has under `"i"`. -/
def readId : Option Json → Except Raised Int
  | none => .error .keyError
  | some v => v.toInt.mapError .builtin

theorem tdiv_le_iff {a b m : Int} (hb : 0 < b) (hm : 0 ≤ m) : a.tdiv b ≤ m ↔ a < (m + 1) * b := by
  rcases Int.le_total 0 a with ha | ha
  · rw [Int.tdiv_eq_ediv_of_nonneg ha, ← Int.lt_add_one_iff, Int.ediv_lt_iff_lt_mul hb]
  · have hneg : a.tdiv b ≤ 0 := by
      have h := Int.tdiv_nonneg (Int.neg_nonneg_of_nonpos ha) hb.le
      rw [Int.neg_tdiv] at h
      exact Int.nonpos_of_neg_nonneg h
    have hpos : 0 < (m + 1) * b := Int.mul_pos (by omega) hb
    exact ⟨fun _ ↦ lt_of_le_of_lt ha hpos, fun _ ↦ hneg.trans hm⟩

/-- Truncation takes a number to the range of the column exactly if it is less than one beyond. -/
theorem isColumnId_truncate (q : ℚ) :
    IsColumnId (PyFloat.truncate q) ↔ -2147483649 < q ∧ q < 2147483648 := by
  have hden : (0 : Int) < q.den := Int.natCast_pos.mpr q.den_pos
  have hdenQ : (0 : ℚ) < q.den := Nat.cast_pos.mpr q.den_pos
  have hupper : q < 2147483648 ↔ q.num < (2147483647 + 1) * (q.den : Int) := by
    rw [← Rat.num_div_den q, div_lt_iff₀ hdenQ, Rat.num_div_den]
    norm_cast
  have hlower : -2147483649 < q ↔ -q.num < (2147483648 + 1) * (q.den : Int) := by
    rw [← Rat.num_div_den q, lt_div_iff₀ hdenQ, Rat.num_div_den, neg_mul, neg_lt]
    norm_cast
  rw [PyFloat.truncate, IsColumnId, hupper, hlower, ← tdiv_le_iff hden (by decide),
    ← tdiv_le_iff hden (by decide), Int.neg_tdiv, neg_le]

/-- What `int` makes of a string. -/
theorem readId_str (s : CodePoints) :
    (∃ t n, s.toText? = some t ∧ Text.toInt t = .ok n ∧ readId (some (.str s)) = .ok n) ∨
      (∀ t n, s.toText? = some t → Text.toInt t ≠ .ok n) ∧
        readId (some (.str s)) = .error (.builtin .valueError) := by
  cases ht : s.toText? with
  | none => exact .inr ⟨fun t n h ↦ (by cases h), by simp [readId, Json.toInt, ht, Except.mapError]⟩
  | some t =>
      cases hn : Text.toInt t with
      | ok n => exact .inl ⟨t, n, rfl, hn, by simp [readId, Json.toInt, ht, hn, Except.mapError]⟩
      | error e =>
          have he := Text.toInt_error hn
          refine .inr ⟨?_, by simp [readId, Json.toInt, ht, hn, he, Except.mapError]⟩
          intro t' n h h'
          cases h
          rw [hn] at h'
          cases h'

theorem rejects_readId (i : Option Json) : Rejects (readId i) ↔ RejectedId i := by
  rcases i with _ | v
  · simp [readId, RejectedId, isInvalidCursor]
  · cases v with
    | null => simp [readId, Json.toInt, Except.mapError, RejectedId, isInvalidCursor]
    | bool b => simp [readId, Json.toInt, Except.mapError, RejectedId]
    | int n => simp [readId, Json.toInt, Except.mapError, RejectedId]
    | float x => cases x <;>
        simp [readId, Json.toInt, PyFloat.toInt, Except.mapError, RejectedId, isInvalidCursor]
    | str s =>
        rcases readId_str s with ⟨t, n, ht, hn, hread⟩ | ⟨hno, hread⟩
        · rw [hread]
          exact ⟨fun h ↦ (rejects_ok h).elim, fun h ↦ (h t n ht hn).elim⟩
        · rw [hread]
          exact ⟨fun _ ↦ hno, fun _ ↦ rejects_error.mpr rfl⟩
    | list items => simp [readId, Json.toInt, Except.mapError, RejectedId, isInvalidCursor]
    | dict pairs => simp [readId, Json.toInt, Except.mapError, RejectedId, isInvalidCursor]

theorem yields_readId (i : Option Json) : Yields IsColumnId (readId i) ↔ FitsId i := by
  rcases i with _ | v
  · simp [readId, FitsId]
  · cases v with
    | null => simp [readId, Json.toInt, Except.mapError, FitsId]
    | bool b => cases b <;> simp [readId, Json.toInt, Except.mapError, FitsId, IsColumnId]
    | int n => simp [readId, Json.toInt, Except.mapError, FitsId]
    | float x => cases x <;>
        simp [readId, Json.toInt, PyFloat.toInt, Except.mapError, FitsId, isColumnId_truncate]
    | str s =>
        rcases readId_str s with ⟨t, n, ht, hn, hread⟩ | ⟨hno, hread⟩
        · rw [hread, yields_ok]
          refine ⟨fun h ↦ ⟨t, n, ht, hn, h⟩, ?_⟩
          rintro ⟨t', n', ht', hn', h⟩
          cases ht.symm.trans ht'
          cases hn.symm.trans hn'
          exact h
        · rw [hread]
          refine ⟨fun h ↦ (yields_error h).elim, ?_⟩
          rintro ⟨t, n, ht, hn, _⟩
          exact (hno t n ht hn).elim
    | list items => simp [readId, Json.toInt, Except.mapError, FitsId]
    | dict pairs => simp [readId, Json.toInt, Except.mapError, FitsId]

/-! ## Dates -/

/-- Under `"p"`: a string that is no date, or a value that counts as true and is no string. -/
def RejectedDate : Json → Prop
  | .str s => s ≠ [] ∧ ∀ t, PyDatetime.fromisoformat s ≠ .ok t
  | v => v.truthy

/-- Under `"p"`: a date with an offset that the query takes, or a value that counts as false. -/
def FitsDate (accepts : PyDatetime → Prop) : Json → Prop
  | .str s => s = [] ∨
    ∃ t, PyDatetime.fromisoformat s = .ok t ∧ t.utcoffset.isSome ∧ accepts t
  | v => ¬v.truthy

/-- `datetime.fromisoformat(p_raw) if p_raw else None`. -/
def readDate (p : Json) : Except Raised (Option PyDatetime) :=
  if p.truthy then (p.fromisoformat.map some).mapError .builtin else pure none

theorem fromisoformat_error {s : CodePoints} {e : PyError}
    (h : PyDatetime.fromisoformat s = .error e) : e = .valueError := by
  unfold PyDatetime.fromisoformat at h
  dsimp only at h
  split at h
  · cases h
  · cases h
    rfl

/-- What is made of a string under `"p"`. -/
theorem readDate_str (s : CodePoints) :
    (s = [] ∧ readDate (.str s) = .ok none) ∨
      (∃ t, s ≠ [] ∧ PyDatetime.fromisoformat s = .ok t ∧ readDate (.str s) = .ok (some t)) ∨
      s ≠ [] ∧ (∀ t, PyDatetime.fromisoformat s ≠ .ok t) ∧
        readDate (.str s) = .error (.builtin .valueError) := by
  cases s with
  | nil => exact .inl ⟨rfl, rfl⟩
  | cons c s =>
      right
      have hread : readDate (.str (c :: s)) =
          ((PyDatetime.fromisoformat (c :: s)).map some).mapError .builtin := rfl
      cases ht : PyDatetime.fromisoformat (c :: s) with
      | ok t =>
          rw [hread, ht]
          exact .inl ⟨t, List.cons_ne_nil c s, rfl, rfl⟩
      | error e =>
          rw [hread, ht, fromisoformat_error ht]
          exact .inr ⟨List.cons_ne_nil c s, fun t h ↦ (by cases h), rfl⟩

theorem readDate_of_not_str {p : Json} (h : ∀ s, p ≠ .str s) :
    readDate p = if p.truthy then .error (.builtin .typeError) else .ok none := by
  have hread : p.fromisoformat = .error .typeError := by
    unfold Json.fromisoformat
    split
    · exact (h _ rfl).elim
    · rfl
  unfold readDate
  rw [hread]
  rfl

theorem rejectedDate_of_not_str {p : Json} (h : ∀ s, p ≠ .str s) :
    RejectedDate p ↔ p.truthy := by
  unfold RejectedDate
  split
  · exact (h _ rfl).elim
  · rfl

theorem fitsDate_of_not_str {accepts : PyDatetime → Prop} {p : Json} (h : ∀ s, p ≠ .str s) :
    FitsDate accepts p ↔ ¬p.truthy := by
  unfold FitsDate
  split
  · exact (h _ rfl).elim
  · rfl

theorem rejects_readDate (p : Json) : Rejects (readDate p) ↔ RejectedDate p := by
  by_cases hstr : ∃ s, p = .str s
  · obtain ⟨s, rfl⟩ := hstr
    rcases readDate_str s with ⟨rfl, hread⟩ | ⟨t, _, ht, hread⟩ | ⟨hne, hno, hread⟩
    · rw [hread]
      exact ⟨fun h ↦ (rejects_ok h).elim, fun h ↦ (h.1 rfl).elim⟩
    · rw [hread]
      exact ⟨fun h ↦ (rejects_ok h).elim, fun h ↦ (h.2 t ht).elim⟩
    · rw [hread]
      exact ⟨fun _ ↦ ⟨hne, hno⟩, fun _ ↦ rejects_error.mpr rfl⟩
  · have hno : ∀ s, p ≠ .str s := fun s hs ↦ hstr ⟨s, hs⟩
    rw [readDate_of_not_str hno, rejectedDate_of_not_str hno]
    cases p.truthy with
    | true => simp [isInvalidCursor]
    | false => simp

theorem yields_readDate (accepts : PyDatetime → Prop) (p : Json) :
    Yields (fun pub ↦ ∀ t ∈ pub, t.utcoffset.isSome ∧ accepts t) (readDate p) ↔
      FitsDate accepts p := by
  by_cases hstr : ∃ s, p = .str s
  · obtain ⟨s, rfl⟩ := hstr
    rcases readDate_str s with ⟨rfl, hread⟩ | ⟨t, hne, ht, hread⟩ | ⟨hne, hno, hread⟩
    · rw [hread, yields_ok]
      refine ⟨fun _ ↦ .inl rfl, fun _ t ht ↦ ?_⟩
      cases ht
    · rw [hread, yields_ok]
      constructor
      · intro h
        exact .inr ⟨t, ht, h t rfl⟩
      · rintro (rfl | ⟨t', ht', h⟩) u hu
        · exact (hne rfl).elim
        · cases hu
          cases ht.symm.trans ht'
          exact h
    · rw [hread]
      refine ⟨fun h ↦ (yields_error h).elim, ?_⟩
      rintro (rfl | ⟨t, ht, _⟩)
      · exact (hne rfl).elim
      · exact (hno t ht).elim
  · have hno : ∀ s, p ≠ .str s := fun s hs ↦ hstr ⟨s, hs⟩
    rw [readDate_of_not_str hno, fitsDate_of_not_str hno]
    cases p.truthy with
    | true => simp
    | false => simp

/-- Whatever goes wrong with a date is caught. -/
theorem readDate_cases (p : Json) : Rejects (readDate p) ∨ ∃ pub, readDate p = .ok pub := by
  by_cases hstr : ∃ s, p = .str s
  · obtain ⟨s, rfl⟩ := hstr
    rcases readDate_str s with ⟨_, hread⟩ | ⟨t, _, _, hread⟩ | ⟨_, _, hread⟩
    · exact .inr ⟨none, hread⟩
    · exact .inr ⟨some t, hread⟩
    · exact .inl (by rw [hread]; exact rejects_error.mpr rfl)
  · rw [readDate_of_not_str fun s hs ↦ hstr ⟨s, hs⟩]
    cases p.truthy with
    | true => exact .inl (rejects_error.mpr rfl)
    | false => exact .inr ⟨none, rfl⟩

/-! ## Documents -/

/-- A document that does no harm as a cursor over entries. -/
def HarmlessEntries (accepts : PyDatetime → Prop) : Json → Prop
  | .dict pairs =>
    let p := (Json.lookup keyP pairs).getD .null
    let i := Json.lookup keyI pairs
    RejectedDate p ∨ RejectedId i ∨ FitsDate accepts p ∧ FitsId i
  | _ => False

/-- A document that does no harm as a cursor over feeds. -/
def HarmlessFeeds : Json → Prop
  | .dict pairs => RejectedId (Json.lookup keyI pairs) ∨ FitsId (Json.lookup keyI pairs)
  | _ => True

/-- A cursor whose document does no harm, or that spells no document; one that is nested too
deep is no such cursor. -/
def HarmlessCursor (harmless : Json → Prop) : Except Raised Json → Prop
  | .ok payload => harmless payload
  | .error e => e ≠ .recursionError

theorem entryKeyOf_dict (pairs : List (CodePoints × Json)) :
    entryKeyOf (.dict pairs) = match readDate ((Json.lookup keyP pairs).getD .null) with
      | .error e => .error e
      | .ok pub => (readId (Json.lookup keyI pairs)).map fun n ↦ (pub, n) := by
  have hbind : entryKeyOf (.dict pairs) =
      (readDate ((Json.lookup keyP pairs).getD .null) >>= fun pub ↦
        (Json.dict pairs).getItem keyI >>= fun i ↦
          i.toInt.mapError Raised.builtin >>= fun n ↦ pure (pub, n)) := by
    cases htruthy : ((Json.lookup keyP pairs).getD .null).truthy with
    | true => simp [entryKeyOf, Json.get, readDate, htruthy, bind, Except.bind]
    | false => simp [entryKeyOf, Json.get, readDate, htruthy, bind, Except.bind, pure, Except.pure]
  rw [hbind, Json.getItem]
  cases readDate ((Json.lookup keyP pairs).getD .null) with
  | error e => rfl
  | ok pub =>
      cases Json.lookup keyI pairs with
      | none => rfl
      | some v => cases hn : v.toInt <;> simp [bind, Except.bind, readId, hn, Except.mapError,
          Except.map, pure, Except.pure]

theorem feedKeyOf_dict (pairs : List (CodePoints × Json)) :
    feedKeyOf (.dict pairs) = readId (Json.lookup keyI pairs) := by
  rw [feedKeyOf, Json.getItem]
  cases Json.lookup keyI pairs with
  | none => rfl
  | some v => rfl

theorem entryKeyOf_harmless (accepts : PyDatetime → Prop) (payload : Json) :
    Rejects (entryKeyOf payload) ∨ Yields (FitsEntries accepts) (entryKeyOf payload) ↔
      HarmlessEntries accepts payload := by
  cases payload with
  | dict pairs =>
      simp only [HarmlessEntries]
      rw [← rejects_readDate, ← rejects_readId, ← yields_readDate, ← yields_readId,
        entryKeyOf_dict]
      generalize readId (Json.lookup keyI pairs) = id
      rcases readDate_cases ((Json.lookup keyP pairs).getD .null) with
        ⟨e, he, hcaught⟩ | ⟨pub, hpub⟩
      · rw [he]
        exact ⟨fun _ ↦ .inl (rejects_error.mpr hcaught), fun _ ↦ .inl (rejects_error.mpr hcaught)⟩
      · rw [hpub]
        cases id with
        | error e => simp [Except.map]
        | ok n =>
            simp only [Except.map, rejects_ok, yields_ok, false_or]
            exact ⟨fun h ↦ ⟨h.date, h.id⟩, fun h ↦ ⟨h.1, h.2⟩⟩
  | _ =>
      refine ⟨fun h ↦ ?_, False.elim⟩
      rcases h with ⟨e, he, hcaught⟩ | ⟨key, hkey, _⟩
      · cases he
        cases hcaught
      · cases hkey

theorem feedKeyOf_harmless (payload : Json) :
    Rejects (feedKeyOf payload) ∨ Yields IsColumnId (feedKeyOf payload) ↔
      HarmlessFeeds payload := by
  cases payload with
  | dict pairs => rw [feedKeyOf_dict, rejects_readId, yields_readId, HarmlessFeeds]
  | _ => exact ⟨fun _ ↦ trivial, fun _ ↦ .inl (rejects_error.mpr rfl)⟩

/-! ## Cursors -/

theorem loadsCursor_error {depth : Nat} {cursor : Text} {e : Raised}
    (h : loadsCursor depth cursor = .error e) : e = .builtin .valueError ∨ e = .recursionError := by
  unfold loadsCursor at h
  cases hraw : Base64.urlsafeB64decode (cursor ++ Base64.padding cursor) with
  | error e' =>
      rw [hraw] at h
      cases h
      rw [Base64.urlsafeB64decode_error hraw]
      exact .inl rfl
  | ok raw =>
      rw [hraw] at h
      simp only [Except.mapError, bind, Except.bind] at h
      split at h
      · cases h
        exact .inl rfl
      · exact Json.loads_error h

/-- The rest of a decoder decides on documents; texts that spell none are caught by both. -/
theorem isClean_iff_harmless {α : Type} {fits : α → Prop} {harmless : Json → Prop}
    {keyOf : Json → Except Raised α}
    (hdocument : ∀ payload, Rejects (keyOf payload) ∨ Yields fits (keyOf payload) ↔
      harmless payload) (depth : Nat) (cursor : Text) :
    IsClean fits (orInvalidCursor (loadsCursor depth cursor >>= keyOf)) ↔
      HarmlessCursor harmless (loadsCursor depth cursor) := by
  rw [isClean_orInvalidCursor]
  cases h : loadsCursor depth cursor with
  | ok payload => exact hdocument payload
  | error e =>
      have hbind : (Except.error e >>= keyOf : Except Raised α) = .error e := rfl
      rw [hbind]
      rcases loadsCursor_error h with rfl | rfl
      · simp [HarmlessCursor, isInvalidCursor]
      · simp [HarmlessCursor, isInvalidCursor]

/-- The decoders are clean exactly on harmless cursors.  A document that is no object, a date
without an offset, an id that is infinite or out of range and a deep nesting get past them. -/
theorem decoders_clean_iff (accepts : PyDatetime → Prop) (depth : Nat) (cursor : Text) :
    (IsClean (FitsEntries accepts) (decodeCursor depth cursor) ↔
        HarmlessCursor (HarmlessEntries accepts) (loadsCursor depth cursor)) ∧
      (IsClean IsColumnId (decodeFeedCursor depth cursor) ↔
        HarmlessCursor HarmlessFeeds (loadsCursor depth cursor)) := by
  rw [decodeCursor_eq, decodeFeedCursor_eq]
  exact ⟨isClean_iff_harmless (entryKeyOf_harmless accepts) depth cursor,
    isClean_iff_harmless feedKeyOf_harmless depth cursor⟩

/-- A date without an offset does not fit. -/
theorem not_isClean_of_naive {accepts : PyDatetime → Prop}
    {r : Except (HttpException ⊕ Raised) (Option PyDatetime × Int)}
    (h : r.map (fun key ↦ key.1.map PyDatetime.utcoffset) = .ok (some none)) :
    ¬IsClean (FitsEntries accepts) r := by
  rcases r with e | ⟨_ | t, id⟩
  · cases h
  · cases h
  · intro hclean
    have hoffset : t.utcoffset = none := by simpa [Except.map] using h
    have haware := (hclean.date t rfl).1
    rw [hoffset] at haware
    cases haware

/-- The cursors spell `[]`, a date without an offset, and an infinite id of a feed. -/
theorem hostile_cursors_escape :
    ¬IsClean (FitsEntries fun _ ↦ True) (decodeCursor 1000 "W10".toList) ∧
      ¬IsClean (FitsEntries fun _ ↦ True)
        (decodeCursor 1000 "eyJwIjoiMjAyMC0wMS0wMSIsImkiOjF9".toList) ∧
      ¬IsClean IsColumnId (decodeFeedCursor 1000 "eyJpIjpJbmZpbml0eX0".toList) := by
  have hlist : decodeCursor 1000 "W10".toList = .error (.inr .attributeError) := by
    decide +kernel
  have hinfinite : decodeFeedCursor 1000 "eyJpIjpJbmZpbml0eX0".toList =
      .error (.inr (.builtin .overflowError)) := by
    decide +kernel
  refine ⟨?_, not_isClean_of_naive (by decide +kernel), ?_⟩
  · rw [hlist]
    exact id
  · rw [hinfinite]
    exact id

end FeedgateFetcher
