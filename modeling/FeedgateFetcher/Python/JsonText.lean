import FeedgateFetcher.Python.Digits
import FeedgateFetcher.Python.Json

/-!
# Printed JSON

What `dumps` prints is read by `loads`, at every depth: every text, whatever has to be
escaped in it, and every integer that is not too long to be printed.
-/

namespace FeedgateFetcher.Python.Json

/-! ## Strings -/

/-- The units that a code point is escaped as: a pair of surrogates beyond the basic plane. -/
def units (n : Nat) : CodePoints :=
  if n < 0x10000 then [n]
  else [0xD800 + (n - 0x10000) / 0x400, 0xDC00 + (n - 0x10000) % 0x400]

theorem joinSurrogates_cons {n : Nat} (h : isHighSurrogate n = false) (s : CodePoints) :
    joinSurrogates (n :: s) = n :: joinSurrogates s := by
  cases s with
  | nil => rfl
  | cons m s =>
      rw [joinSurrogates, h]
      rfl

theorem joinSurrogates_pair {n m : Nat} (hn : isHighSurrogate n) (hm : isLowSurrogate m)
    (s : CodePoints) :
    joinSurrogates (n :: m :: s) =
      (0x10000 + (n - 0xD800) * 0x400 + (m - 0xDC00)) :: joinSurrogates s := by
  rw [joinSurrogates, hn, hm]
  rfl

/-- Code points that are no surrogates come back from their units. -/
theorem joinSurrogates_units {s : CodePoints} (h : ∀ n ∈ s, n.isValidChar) :
    joinSurrogates (s.flatMap units) = s := by
  induction s with
  | nil => rfl
  | cons n s ih =>
      have hs := ih fun m hm ↦ h m (List.mem_cons_of_mem n hm)
      have hn : n < 0xD800 ∨ 0xDFFF < n ∧ n < 0x110000 := h n List.mem_cons_self
      rw [List.flatMap_cons, units]
      split
      · have hhigh : isHighSurrogate n = false := by
          simp only [isHighSurrogate, Bool.and_eq_false_iff, decide_eq_false_iff_not]
          omega
        rw [List.singleton_append, joinSurrogates_cons hhigh, hs]
      · have hhigh : isHighSurrogate (0xD800 + (n - 0x10000) / 0x400) := by
          simp only [isHighSurrogate, Bool.and_eq_true, decide_eq_true_eq]
          omega
        have hlow : isLowSurrogate (0xDC00 + (n - 0x10000) % 0x400) := by
          simp only [isLowSurrogate, Bool.and_eq_true, decide_eq_true_eq]
          omega
        have hjoin : 0x10000 + (0xD800 + (n - 0x10000) / 0x400 - 0xD800) * 0x400 +
            (0xDC00 + (n - 0x10000) % 0x400 - 0xDC00) = n := by
          omega
        rw [List.cons_append, List.singleton_append, joinSurrogates_pair hhigh hlow, hs, hjoin]

section

variable {n : Nat} (rest : Text)

theorem hexValue_digitChar {d : Nat} (h : d < 16) : IPAddress.hexValue d.digitChar = some d :=
  (by decide : ∀ d : Fin 16, IPAddress.hexValue d.val.digitChar = some d.val) ⟨d, h⟩

theorem scanUnits_escapeUnit (h : n < 0x10000) :
    scanUnits (escapeUnit n ++ rest) = (scanUnits rest).map fun r ↦ (n :: r.1, r.2) := by
  have hdigits : escapeUnit n = '\\' :: 'u' :: Text.padded 16 4 n := rfl
  have hvalue : hexValues [(n / 16 / 16 / 16).digitChar, (n / 16 / 16 % 16).digitChar,
      (n / 16 % 16).digitChar, (n % 16).digitChar] = some n := by
    simp only [hexValues, List.mapM_cons, List.mapM_nil, @hexValue_digitChar (n / 16 / 16 / 16)
      (by omega), @hexValue_digitChar (n / 16 / 16 % 16) (by omega),
      @hexValue_digitChar (n / 16 % 16) (by omega), @hexValue_digitChar (n % 16) (by omega),
      Option.pure_def, Option.bind_eq_bind, Option.bind_some, Option.map_some, List.foldl_cons,
      List.foldl_nil, Option.some.injEq]
    omega
  rw [hdigits, Text.padded_four (by decide) h]
  simp only [List.cons_append, List.nil_append]
  rw [scanUnits, hvalue]
  cases scanUnits rest with
  | none => rfl
  | some r => rfl

theorem scanUnits_unescape {c : Char} (hu : c ≠ 'u') (h : unescape c = some n) :
    scanUnits ('\\' :: c :: rest) = (scanUnits rest).map fun r ↦ (n :: r.1, r.2) := by
  rw [scanUnits, h]
  · cases scanUnits rest with
    | none => rfl
    | some r => rfl
  · intro a b c' d s hc _
    exact hu hc

theorem scanUnits_char {c : Char} (hquote : c ≠ '"') (hback : c ≠ '\\') (h : 0x20 ≤ c.toNat) :
    scanUnits (c :: rest) = (scanUnits rest).map fun r ↦ (c.toNat :: r.1, r.2) := by
  rw [scanUnits, if_neg (Nat.not_lt.mpr h)]
  · cases scanUnits rest with
    | none => rfl
    | some r => rfl
  · exact hquote
  · intro a b c' d s hc _
    exact hback hc
  · intro c' s hc _
    exact hback hc

/-- Beyond the first plane a code point is escaped as its surrogates. -/
theorem escape_pair (h : 0x10000 ≤ n) : escape n =
    escapeUnit (0xD800 + (n - 0x10000) / 0x400) ++
      escapeUnit (0xDC00 + (n - 0x10000) % 0x400) := by
  simp (disch := omega) only [escape, if_neg]

/-- The scanner on a code point that was escaped. -/
theorem scanUnits_escape (h : n.isValidChar) :
    scanUnits (escape n ++ rest) = (scanUnits rest).map fun r ↦ (units n ++ r.1, r.2) := by
  have hn : n < 0xD800 ∨ 0xDFFF < n ∧ n < 0x110000 := h
  rcases Nat.lt_or_ge n 0x10000 with hlt | hge
  · have hunits : units n = [n] := if_pos hlt
    rw [hunits, escape]
    split_ifs with h₁ h₂ h₃ h₄ h₅ h₆ h₇ h₈
    · exact scanUnits_unescape rest (by decide) (by rw [h₁]; rfl)
    · exact scanUnits_unescape rest (by decide) (by rw [h₂]; rfl)
    · have hchar : (Char.ofNat n).toNat = n := by
        rw [Char.ofNat, dif_pos h]
        rfl
      have hne : ∀ {c : Char}, n ≠ c.toNat → Char.ofNat n ≠ c := by
        rintro c hc rfl
        exact hc hchar.symm
      have hscan := scanUnits_char rest (hne h₁) (hne h₂) (by rw [hchar]; exact h₃.1)
      rw [hchar] at hscan
      exact hscan
    · exact scanUnits_unescape rest (by decide) (by rw [h₄]; rfl)
    · exact scanUnits_unescape rest (by decide) (by rw [h₅]; rfl)
    · exact scanUnits_unescape rest (by decide) (by rw [h₆]; rfl)
    · exact scanUnits_unescape rest (by decide) (by rw [h₇]; rfl)
    · exact scanUnits_unescape rest (by decide) (by rw [h₈]; rfl)
    · exact scanUnits_escapeUnit rest hlt
  · have hunits : units n = [0xD800 + (n - 0x10000) / 0x400, 0xDC00 + (n - 0x10000) % 0x400] :=
      if_neg (Nat.not_lt.mpr hge)
    rw [escape_pair hge, hunits, List.append_assoc, scanUnits_escapeUnit _ (by omega),
      scanUnits_escapeUnit _ (by omega), Option.map_map]
    rfl

end

theorem scanUnits_flatMap_escape {s : CodePoints} (h : ∀ n ∈ s, n.isValidChar) (rest : Text) :
    scanUnits (s.flatMap escape ++ '"' :: rest) = some (s.flatMap units, rest) := by
  induction s with
  | nil => rw [List.flatMap_nil, List.nil_append, scanUnits, List.flatMap_nil]
  | cons n s ih =>
      rw [List.flatMap_cons, List.append_assoc, scanUnits_escape _ (h n List.mem_cons_self),
        ih fun m hm ↦ h m (List.mem_cons_of_mem n hm)]
      rfl

theorem scanString_escape {s : CodePoints} (h : ∀ n ∈ s, n.isValidChar) (rest : Text) :
    scanString (s.flatMap escape ++ '"' :: rest) = .ok (s, rest) := by
  rw [scanString, scanUnits_flatMap_escape h]
  exact congrArg (fun t ↦ Except.ok (t, rest)) (joinSurrogates_units h)

/-! ## Numbers -/

/-- A text after which a number is over. -/
def EndsNumber (rest : Text) : Prop :=
  ∀ c ∈ rest.head?, isDigit c = false ∧ c ≠ '.' ∧ c ≠ 'e' ∧ c ≠ 'E'

theorem isDigit_of_mem {n : Nat} {c : Char} (h : c ∈ Nat.toDigits 10 n) : isDigit c := by
  have hc := Text.toNat_mem_toDigits h
  simp only [isDigit, Bool.and_eq_true, decide_eq_true_eq]
  exact ⟨hc.1, hc.2⟩

theorem takeWhile_digits {ds rest : Text} (hds : ∀ c ∈ ds, isDigit c) (hrest : EndsNumber rest) :
    (ds ++ rest).takeWhile isDigit = ds ∧ (ds ++ rest).dropWhile isDigit = rest := by
  have hstop : rest.takeWhile isDigit = [] ∧ rest.dropWhile isDigit = rest := by
    cases rest with
    | nil => exact ⟨rfl, rfl⟩
    | cons c rest =>
        have hc : ¬isDigit c := Bool.eq_false_iff.mp (hrest c rfl).1
        exact ⟨List.takeWhile_cons_of_neg hc, List.dropWhile_cons_of_neg hc⟩
  rw [List.takeWhile_append_of_pos hds, List.dropWhile_append_of_pos hds, hstop.1, hstop.2]
  exact ⟨List.append_nil ds, rfl⟩

theorem scanInteger_toDigits (n : Nat) {rest : Text} (hrest : EndsNumber rest) :
    scanInteger (Nat.toDigits 10 n ++ rest) = some (digitsOf (Nat.toDigits 10 n), rest) := by
  rcases Nat.eq_zero_or_pos n with rfl | hn
  · rfl
  · obtain ⟨c, ds, hds, hc⟩ := Text.toDigits_head hn
    have hdigits : ∀ d ∈ c :: ds, isDigit d := fun d hd ↦ isDigit_of_mem (hds ▸ hd)
    have hspan := takeWhile_digits (fun d hd ↦ hdigits d (List.mem_cons_of_mem c hd)) hrest
    rw [hds, List.cons_append, scanInteger, if_neg hc, if_pos (hdigits c List.mem_cons_self),
      hspan.1, hspan.2]

theorem scanFraction_of_endsNumber {rest : Text} (h : EndsNumber rest) :
    scanFraction rest = none := by
  unfold scanFraction
  split
  · exact absurd rfl (h '.' rfl).2.1
  · rfl

theorem scanExponent_of_endsNumber {rest : Text} (h : EndsNumber rest) :
    scanExponent rest = none := by
  cases rest with
  | nil => rfl
  | cons c rest => exact if_neg fun hc ↦ hc.elim (h c rfl).2.2.1 (h c rfl).2.2.2

/-- A printed integer, and the digit it starts with after its sign. -/
theorem dumpsInt_cases {n : Int} {text : Text} (h : dumpsInt n = .ok text) :
    (Nat.toDigits 10 n.natAbs).length ≤ Text.maxStrDigits ∧
      text = if n < 0 then '-' :: Nat.toDigits 10 n.natAbs else Nat.toDigits 10 n.natAbs := by
  by_cases hlen : Text.maxStrDigits < (Nat.toDigits 10 n.natAbs).length
  · have hfail : dumpsInt n = .error .valueError := if_pos hlen
    rw [hfail] at h
    cases h
  · have hprint : dumpsInt n = .ok _ := if_neg hlen
    rw [hprint] at h
    cases h
    exact ⟨Nat.not_lt.mp hlen, rfl⟩

/-- Integers of at most 4300 digits are printed. -/
theorem dumpsInt_ok {n : Int} (h : n.natAbs < 10 ^ Text.maxStrDigits) :
    ∃ text, dumpsInt n = .ok text := by
  have hlen := (Nat.length_toDigits_le_iff (by decide) (by decide)).mpr h
  exact ⟨_, if_neg (Nat.not_lt.mpr hlen)⟩

theorem scanNumber_dumpsInt {n : Int} {text rest : Text} (h : dumpsInt n = .ok text)
    (hrest : EndsNumber rest) : scanNumber (text ++ rest) = .ok (.int n, rest) := by
  obtain ⟨hlen, rfl⟩ := dumpsInt_cases h
  have hvalue : ∀ negative, numberValue negative (digitsOf (Nat.toDigits 10 n.natAbs)) none none =
      .ok (.int (if negative then -n.natAbs else n.natAbs)) := by
    intro negative
    unfold numberValue
    rw [digitsOf, List.length_map, if_neg (Nat.not_lt.mpr hlen), Text.ofDigits_toDigits]
  split
  · next hneg =>
    have hn : -(n.natAbs : Int) = n := by omega
    rw [List.cons_append, scanNumber, scanInteger_toDigits _ hrest]
    simp only [scanFraction_of_endsNumber hrest, scanExponent_of_endsNumber hrest, hvalue,
      if_true, hn]
    rfl
  · next hneg =>
    have hn : (n.natAbs : Int) = n := by omega
    have hsign : ∀ s, Nat.toDigits 10 n.natAbs ++ rest ≠ '-' :: s := by
      intro s hs
      obtain ⟨c, ds, hds⟩ := List.exists_cons_of_ne_nil (@Nat.toDigits_ne_nil n.natAbs 10)
      rw [hds] at hs
      have hc : isDigit c := isDigit_of_mem (hds ▸ List.mem_cons_self)
      rw [List.cons_append, List.cons.injEq] at hs
      rw [hs.1] at hc
      exact absurd hc (by decide)
    unfold scanNumber
    split
    next negative s hsplit =>
    split at hsplit
    · next s' hs => exact absurd hs (hsign s')
    · cases hsplit
      rw [scanInteger_toDigits _ hrest]
      simp only [scanFraction_of_endsNumber hrest, scanExponent_of_endsNumber hrest, hvalue, hn]
      rfl

/-! ## Values -/

/-- Every code point stands for a character. -/
def Scalar.IsText : Scalar → Prop
  | .str s => ∀ n ∈ s, n.isValidChar
  | _ => True

theorem skipWhitespace_cons {c : Char} (h : c ∉ [' ', '\t', '\n', '\r']) (s : Text) :
    skipWhitespace (c :: s) = c :: s :=
  List.dropWhile_cons_of_neg (decide_eq_false h ▸ Bool.false_ne_true)

theorem endsNumber_cons {c : Char} (h : c = ',' ∨ c = '\x7d') (s : Text) :
    EndsNumber (c :: s) := by
  intro d hd
  cases hd
  rcases h with rfl | rfl
  · decide
  · decide

theorem scanValue_quote {object array : Scanner} (s : Text) :
    scanValue object array ('"' :: s) = (scanString s).map fun r ↦ (.str r.1, r.2) := rfl

theorem scanValue_digit {object array : Scanner} {c : Char} (hc : isDigit c) (s : Text) :
    scanValue object array (c :: s) = scanNumber (c :: s) := by
  unfold scanValue
  split
  case h_10 => rfl
  all_goals
    next heq =>
      cases heq
      exact absurd hc (by decide)

theorem scanValue_minus {object array : Scanner} {c : Char} (hc : isDigit c) (s : Text) :
    scanValue object array ('-' :: c :: s) = scanNumber ('-' :: c :: s) := by
  unfold scanValue
  split
  case h_10 => rfl
  case h_9 heq =>
    cases heq
    exact absurd hc (by decide)
  all_goals
    next heq => cases heq

theorem dumpsInt_head {n : Int} {text : Text} (h : dumpsInt n = .ok text) :
    ∃ c s, isDigit c ∧ (text = c :: s ∨ text = '-' :: c :: s) := by
  obtain ⟨c, s, hs⟩ := List.exists_cons_of_ne_nil (@Nat.toDigits_ne_nil n.natAbs 10)
  have hc : isDigit c := isDigit_of_mem (hs ▸ List.mem_cons_self)
  refine ⟨c, s, hc, ?_⟩
  rw [(dumpsInt_cases h).2, hs]
  split
  · exact .inr rfl
  · exact .inl rfl

section

variable {object array : Scanner} {v : Scalar} {text rest : Text} {c : Char}

/-- A printed value is read, before a comma and at the end of an object. -/
theorem scanValue_dumpsScalar (h : dumpsScalar v = .ok text) (hv : v.IsText)
    (hc : c = ',' ∨ c = '\x7d') :
    scanValue object array (text ++ c :: rest) = .ok (v.toJson, c :: rest) := by
  cases v with
  | null =>
      cases h
      rfl
  | str s =>
      cases h
      rw [dumpsStr, List.cons_append, List.append_assoc, List.singleton_append, scanValue_quote,
        scanString_escape hv]
      rfl
  | int n =>
      have hnumber := scanNumber_dumpsInt h (endsNumber_cons hc rest)
      obtain ⟨d, s, hd, rfl | rfl⟩ := dumpsInt_head h
      · exact (scanValue_digit hd _).trans hnumber
      · exact (scanValue_minus hd _).trans hnumber

theorem skipWhitespace_dumpsScalar (h : dumpsScalar v = .ok text) :
    skipWhitespace (text ++ rest) = text ++ rest := by
  cases v with
  | null =>
      cases h
      exact skipWhitespace_cons (by decide) _
  | str s =>
      cases h
      exact skipWhitespace_cons (by decide) _
  | int n =>
      obtain ⟨d, s, hd, rfl | rfl⟩ := dumpsInt_head h
      · refine skipWhitespace_cons (fun hspace ↦ ?_) _
        simp only [List.mem_cons, List.not_mem_nil, or_false] at hspace
        rcases hspace with rfl | rfl | rfl | rfl
        · exact absurd hd (by decide)
        · exact absurd hd (by decide)
        · exact absurd hd (by decide)
        · exact absurd hd (by decide)
      · exact skipWhitespace_cons (by decide) _

end

/-! ## Objects -/

section

variable {object array : Scanner} {key : CodePoints} {v : Scalar} {text rest : Text}

/-- The scanner after a printed pair. -/
theorem scanPairs_pair (fuel : Nat) {c : Char} (hkey : ∀ n ∈ key, n.isValidChar)
    (h : dumpsScalar v = .ok text) (hv : v.IsText) (hc : c = ',' ∨ c = '\x7d') :
    scanPairs (scanValue object array) (fuel + 1) (dumpsStr key ++ ':' :: text ++ c :: rest) =
      if c = '\x7d' then .ok ([(key, v.toJson)], rest)
      else (scanPairs (scanValue object array) fuel (skipWhitespace rest)).map fun r ↦
        ((key, v.toJson) :: r.1, r.2) := by
  have hkeys : scanString (key.flatMap escape ++ '"' :: (':' :: text ++ c :: rest)) =
      .ok (key, ':' :: (text ++ c :: rest)) := scanString_escape hkey _
  have hcolon : skipWhitespace (':' :: (text ++ c :: rest)) = ':' :: (text ++ c :: rest) :=
    skipWhitespace_cons (by decide) _
  have hvalue : scanValue object array (text ++ c :: rest) = .ok (v.toJson, c :: rest) :=
    scanValue_dumpsScalar h hv hc
  have hend : skipWhitespace (c :: rest) = c :: rest := by
    rcases hc with rfl | rfl
    · exact skipWhitespace_cons (by decide) _
    · exact skipWhitespace_cons (by decide) _
  rw [dumpsStr, List.append_assoc, List.cons_append, List.append_assoc, List.singleton_append,
    scanPairs]
  simp only [hkeys, bind, Except.bind, hcolon, skipWhitespace_dumpsScalar h, hvalue, hend]
  rcases hc with rfl | rfl
  · rw [if_neg (by decide)]
    simp only
    cases scanPairs (scanValue object array) fuel (skipWhitespace rest) with
    | error e => rfl
    | ok r => rfl
  · rw [if_pos rfl]
    rfl

/-- What is printed for a pair and the pairs after it. -/
theorem dumpsPairs_cons {kvs : List (CodePoints × Scalar)}
    (h : dumpsPairs ((key, v) :: kvs) = .ok text) :
    ∃ t, dumpsScalar v = .ok t ∧
      ((kvs = [] ∧ text = dumpsStr key ++ ':' :: t) ∨
        ∃ ts, kvs ≠ [] ∧ dumpsPairs kvs = .ok ts ∧
          text = dumpsStr key ++ ':' :: t ++ ',' :: ts) := by
  cases kvs with
  | nil =>
      cases ht : dumpsScalar v with
      | error e =>
          rw [dumpsPairs, ht] at h
          cases h
      | ok t =>
          rw [dumpsPairs, ht] at h
          cases h
          exact ⟨t, rfl, .inl ⟨rfl, rfl⟩⟩
  | cons kv kvs =>
      cases ht : dumpsScalar v with
      | error e =>
          rw [dumpsPairs, ht] at h
          · cases h
          · exact List.cons_ne_nil kv kvs
      | ok t =>
          cases hts : dumpsPairs (kv :: kvs) with
          | error e =>
              rw [dumpsPairs, ht, hts] at h
              · cases h
              · exact List.cons_ne_nil kv kvs
          | ok ts =>
              rw [dumpsPairs, ht, hts] at h
              · cases h
                exact ⟨t, rfl, .inr ⟨ts, List.cons_ne_nil kv kvs, rfl, rfl⟩⟩
              · exact List.cons_ne_nil kv kvs

theorem dumpsPairs_head {pairs : List (CodePoints × Scalar)} (hne : pairs ≠ [])
    (h : dumpsPairs pairs = .ok text) : ∃ s, text = '"' :: s := by
  cases pairs with
  | nil => exact absurd rfl hne
  | cons kv kvs =>
      obtain ⟨key, v⟩ := kv
      obtain ⟨t, _, ⟨_, rfl⟩ | ⟨ts, _, _, rfl⟩⟩ := dumpsPairs_cons h
      · exact ⟨_, rfl⟩
      · exact ⟨_, rfl⟩

theorem length_le_of_dumpsPairs {pairs : List (CodePoints × Scalar)}
    (h : dumpsPairs pairs = .ok text) : pairs.length ≤ text.length := by
  induction pairs generalizing text with
  | nil => exact Nat.zero_le _
  | cons kv kvs ih =>
      obtain ⟨key, v⟩ := kv
      obtain ⟨t, _, ⟨rfl, rfl⟩ | ⟨ts, _, hts, rfl⟩⟩ := dumpsPairs_cons h
      · exact Nat.succ_le_succ (Nat.zero_le _)
      · have hlen := ih hts
        simp only [List.length_append, List.length_cons]
        omega

/-- A pair without surrogates in it. -/
def IsTextPair (kv : CodePoints × Scalar) : Prop := (∀ n ∈ kv.1, n.isValidChar) ∧ kv.2.IsText

/-- Printed pairs are read off, given fuel for each of them. -/
theorem scanPairs_dumpsPairs {pairs : List (CodePoints × Scalar)} {fuel : Nat}
    (hne : pairs ≠ []) (hpairs : ∀ kv ∈ pairs, IsTextPair kv)
    (h : dumpsPairs pairs = .ok text) (hfuel : pairs.length ≤ fuel) :
    scanPairs (scanValue object array) fuel (text ++ '\x7d' :: rest) =
      .ok (pairs.map fun kv ↦ (kv.1, kv.2.toJson), rest) := by
  induction pairs generalizing text fuel with
  | nil => exact absurd rfl hne
  | cons kv kvs ih =>
      obtain ⟨key, v⟩ := kv
      obtain ⟨fuel, rfl⟩ := Nat.exists_eq_succ_of_ne_zero (Nat.ne_zero_of_lt hfuel)
      have hkv := hpairs (key, v) List.mem_cons_self
      obtain ⟨t, ht, ⟨rfl, rfl⟩ | ⟨ts, hkvs, hts, rfl⟩⟩ := dumpsPairs_cons h
      · rw [scanPairs_pair fuel hkv.1 ht hkv.2 (.inr rfl), if_pos rfl]
        rfl
      · have hrest := ih hkvs (fun kv hmem ↦ hpairs kv (List.mem_cons_of_mem _ hmem)) hts
          (Nat.le_of_succ_le_succ hfuel)
        have hspace : skipWhitespace (ts ++ '\x7d' :: rest) = ts ++ '\x7d' :: rest := by
          obtain ⟨s, rfl⟩ := dumpsPairs_head hkvs hts
          exact skipWhitespace_cons (by decide) _
        rw [List.append_assoc, List.cons_append, scanPairs_pair fuel hkv.1 ht hkv.2 (.inl rfl),
          if_neg (by decide), hspace, hrest]
        rfl

end

theorem exists_scanOnce_eq (depth : Nat) :
    ∃ object array, scanOnce depth = scanValue object array := by
  cases depth with
  | zero => exact ⟨_, _, rfl⟩
  | succ depth => exact ⟨_, _, rfl⟩

theorem scanObject_quote (item : Scanner) (s : Text) :
    scanObject item ('"' :: s) =
      (scanPairs item ('"' :: s).length ('"' :: s)).map fun r ↦ (.dict r.1, r.2) := by
  rw [scanObject, skipWhitespace_cons (by decide)]
  rfl

theorem scanObject_dumpsPairs {pairs : List (CodePoints × Scalar)} {text : Text} (depth : Nat)
    (hpairs : ∀ kv ∈ pairs, IsTextPair kv) (h : dumpsPairs pairs = .ok text) :
    scanObject (scanOnce depth) (text ++ ['\x7d']) =
      .ok (.dict (pairs.map fun kv ↦ (kv.1, kv.2.toJson)), []) := by
  rcases eq_or_ne pairs [] with rfl | hne
  · cases h
    rfl
  · obtain ⟨object, array, hscan⟩ := exists_scanOnce_eq depth
    have hfuel : pairs.length ≤ (text ++ ['\x7d']).length := by
      rw [List.length_append]
      exact Nat.le_add_right_of_le (length_le_of_dumpsPairs h)
    have hread : scanPairs (scanOnce depth) (text ++ ['\x7d']).length (text ++ ['\x7d']) = _ :=
      hscan ▸ scanPairs_dumpsPairs hne hpairs h hfuel
    obtain ⟨s, rfl⟩ := dumpsPairs_head hne h
    rw [List.cons_append] at hread ⊢
    rw [scanObject_quote, hread]
    rfl

/-- What is printed is read back, at every depth. -/
theorem loads_dumps {pairs : List (CodePoints × Scalar)} {text : Text} (depth : Nat)
    (hpairs : ∀ kv ∈ pairs, IsTextPair kv) (h : dumps pairs = .ok text) :
    loads depth text = .ok (.dict (pairs.map fun kv ↦ (kv.1, kv.2.toJson))) := by
  cases ht : dumpsPairs pairs with
  | error e =>
      rw [dumps, ht] at h
      cases h
  | ok t =>
      rw [dumps, ht] at h
      cases h
      have hspace : skipWhitespace ('\x7b' :: (t ++ ['\x7d'])) = '\x7b' :: (t ++ ['\x7d']) :=
        skipWhitespace_cons (by decide) _
      have hobject : scanOnce (depth + 1) ('\x7b' :: (t ++ ['\x7d'])) = _ :=
        scanObject_dumpsPairs depth hpairs ht
      rw [loads, if_neg (by simp), hspace, hobject]
      rfl

/-- All integers of the pair have at most 4300 digits. -/
def IsPrintable (kv : CodePoints × Scalar) : Prop :=
  ∀ n, kv.2 = .int n → n.natAbs < 10 ^ Text.maxStrDigits

theorem dumpsScalar_ok {kv : CodePoints × Scalar} (h : IsPrintable kv) :
    ∃ t, dumpsScalar kv.2 = .ok t := by
  obtain ⟨key, v⟩ := kv
  cases v with
  | null => exact ⟨_, rfl⟩
  | str s => exact ⟨_, rfl⟩
  | int n => exact dumpsInt_ok (h n rfl)

theorem dumpsPairs_ok {pairs : List (CodePoints × Scalar)} (h : ∀ kv ∈ pairs, IsPrintable kv) :
    ∃ text, dumpsPairs pairs = .ok text := by
  induction pairs with
  | nil => exact ⟨[], rfl⟩
  | cons kv kvs ih =>
      obtain ⟨t, ht⟩ := dumpsScalar_ok (h kv List.mem_cons_self)
      obtain ⟨ts, hts⟩ := ih fun kv hmem ↦ h kv (List.mem_cons_of_mem _ hmem)
      cases kvs with
      | nil =>
          rw [dumpsPairs, ht]
          exact ⟨_, rfl⟩
      | cons kv' kvs =>
          rw [dumpsPairs, ht, hts]
          · exact ⟨_, rfl⟩
          · exact List.cons_ne_nil kv' kvs

theorem dumps_ok {pairs : List (CodePoints × Scalar)} (h : ∀ kv ∈ pairs, IsPrintable kv) :
    ∃ text, dumps pairs = .ok text := by
  obtain ⟨t, ht⟩ := dumpsPairs_ok h
  rw [dumps, ht]
  exact ⟨_, rfl⟩

end FeedgateFetcher.Python.Json
