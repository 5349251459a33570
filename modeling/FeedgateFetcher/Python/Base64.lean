import FeedgateFetcher.Python.Text

/-!
# Bytes

UTF-8, and the URL-safe alphabet of `base64`, in both directions.  The decoder is that of
`binascii.a2b_base64` outside its strict mode: characters outside the alphabet are
skipped, and padding that completes a group ends the input.
-/

namespace FeedgateFetcher.Python

abbrev Bytes := List UInt8

/-! ## UTF-8 -/

/-- `s.encode()`. -/
def encodeUtf8 (s : Text) : Bytes := s.flatMap String.utf8EncodeChar

/-- `b.decode()`, with `none` for its `UnicodeDecodeError`. -/
def decodeUtf8 (b : Bytes) : Option Text := b.toByteArray.utf8Decode?.map Array.toList

theorem decodeUtf8_encodeUtf8 (s : Text) : decodeUtf8 (encodeUtf8 s) = some s := by
  have h : (encodeUtf8 s).toByteArray.utf8Decode? = some s.toArray := List.utf8Decode?_utf8Encode
  rw [decodeUtf8, h]
  rfl

namespace Base64

/-! ## Encoding -/

/-- The character of six bits. -/
def toChar (n : Nat) : Char :=
  if n < 26 then Char.ofNat ('A'.toNat + n)
  else if n < 52 then Char.ofNat ('a'.toNat + (n - 26))
  else if n < 62 then Char.ofNat ('0'.toNat + (n - 52))
  else if n = 62 then '+' else '/'

/-- `base64.b64encode`. -/
def b64encode : Bytes → Text
  | [] => []
  | [a] => [toChar (a.toNat / 4), toChar (a.toNat % 4 * 16), '=', '=']
  | [a, b] =>
    [toChar (a.toNat / 4), toChar (a.toNat % 4 * 16 + b.toNat / 16), toChar (b.toNat % 16 * 4), '=']
  | a :: b :: c :: s =>
    toChar (a.toNat / 4) :: toChar (a.toNat % 4 * 16 + b.toNat / 16) ::
      toChar (b.toNat % 16 * 4 + c.toNat / 64) :: toChar (c.toNat % 64) :: b64encode s

/-- The translation of `urlsafe_b64encode`. -/
def toUrlsafe (c : Char) : Char := if c = '+' then '-' else if c = '/' then '_' else c

/-- `base64.urlsafe_b64encode`. -/
def urlsafeB64encode (s : Bytes) : Text := (b64encode s).map toUrlsafe

/-! ## Decoding -/

/-- The six bits of a character, for the characters of the alphabet. -/
def ofChar (c : Char) : Option Nat :=
  if 'A' ≤ c ∧ c ≤ 'Z' then some (c.toNat - 'A'.toNat)
  else if 'a' ≤ c ∧ c ≤ 'z' then some (c.toNat - 'a'.toNat + 26)
  else if '0' ≤ c ∧ c ≤ '9' then some (c.toNat - '0'.toNat + 52)
  else if c = '+' then some 62
  else if c = '/' then some 63
  else none

/-- `binascii.a2b_base64`, from a position in a group with the bits left over from the character
before and the pads since then. -/
def a2b (quadPos left pads : Nat) : Text → Except PyError Bytes
  | [] => if quadPos = 0 then .ok [] else .error .valueError
  | c :: s =>
    if c = '=' then
      if 2 ≤ quadPos then
        if 4 ≤ quadPos + (pads + 1) then .ok [] else a2b quadPos left (pads + 1) s
      else a2b quadPos left pads s
    else match ofChar c with
      | none => a2b quadPos left pads s
      | some v => match quadPos with
        | 0 => a2b 1 v 0 s
        | 1 => (a2b 2 (v % 16) 0 s).map (UInt8.ofNat (left * 4 + v / 16) :: ·)
        | 2 => (a2b 3 (v % 4) 0 s).map (UInt8.ofNat (left * 16 + v / 4) :: ·)
        | _ => (a2b 0 0 0 s).map (UInt8.ofNat (left * 64 + v) :: ·)

/-- `base64.b64decode`. -/
def b64decode (s : Text) : Except PyError Bytes := a2b 0 0 0 s

/-- The translation of `urlsafe_b64decode`. -/
def ofUrlsafe (c : Char) : Char := if c = '-' then '+' else if c = '_' then '/' else c

/-- `base64.urlsafe_b64decode` on a `str`. -/
def urlsafeB64decode (s : Text) : Except PyError Bytes :=
  if s.all fun c ↦ c.toNat < 128 then b64decode (s.map ofUrlsafe) else .error .valueError

example : urlsafeB64encode [0xFB, 0xFF] = "-_8=".toList := by decide

example : urlsafeB64decode "-_8=".toList = .ok [0xFB, 0xFF] := by decide

/-- Decoding raises nothing but `ValueError`. -/
theorem a2b_error {q l p : Nat} {s : Text} {e : PyError} (h : a2b q l p s = .error e) :
    e = .valueError := by
  have hmap : ∀ {b : UInt8} {r : Except PyError Bytes}, r.map (b :: ·) = .error e →
      r = .error e := by
    intro b r hr
    cases r with
    | error e' => exact hr
    | ok bs => cases hr
  induction s generalizing q l p with
  | nil =>
      rw [a2b] at h
      split at h
      · cases h
      · cases h
        rfl
  | cons c s ih =>
      rw [a2b] at h
      split at h
      · split at h
        · split at h
          · cases h
          · exact ih h
        · exact ih h
      · split at h
        · exact ih h
        · split at h
          · exact ih h
          · exact ih (hmap h)
          · exact ih (hmap h)
          · exact ih (hmap h)

theorem urlsafeB64decode_error {s : Text} {e : PyError} (h : urlsafeB64decode s = .error e) :
    e = .valueError := by
  unfold urlsafeB64decode at h
  split at h
  · exact a2b_error h
  · cases h
    rfl

/-! ## The round trip -/

/-- The characters that stand for data in the URL-safe alphabet. -/
def isUrlsafeChar (c : Char) : Bool :=
  ('A' ≤ c && c ≤ 'Z') || ('a' ≤ c && c ≤ 'z') || ('0' ≤ c && c ≤ '9') || c == '-' || c == '_'

section

variable {n q l p : Nat} {s : Text}

theorem ofChar_toChar (h : n < 64) : ofChar (toChar n) = some n :=
  (by decide : ∀ n : Fin 64, ofChar (toChar n) = some n.val) ⟨n, h⟩

theorem ofUrlsafe_toUrlsafe (h : n < 64) : ofUrlsafe (toUrlsafe (toChar n)) = toChar n :=
  (by decide : ∀ n : Fin 64, ofUrlsafe (toUrlsafe (toChar n)) = toChar n) ⟨n, h⟩

theorem isUrlsafeChar_toChar (h : n < 64) : isUrlsafeChar (toUrlsafe (toChar n)) :=
  (by decide : ∀ n : Fin 64, isUrlsafeChar (toUrlsafe (toChar n))) ⟨n, h⟩

theorem toChar_ne_pad (h : n < 64) : toChar n ≠ '=' :=
  (by decide : ∀ n : Fin 64, toChar n ≠ '=') ⟨n, h⟩

theorem isUrlsafeChar_ascii {c : Char} (h : isUrlsafeChar c) : c.toNat < 128 := by
  simp only [isUrlsafeChar, Bool.or_eq_true, Bool.and_eq_true, decide_eq_true_eq, beq_iff_eq] at h
  rcases h with (((h | h) | h) | rfl) | rfl
  · exact lt_of_le_of_lt h.2 (by decide)
  · exact lt_of_le_of_lt h.2 (by decide)
  · exact lt_of_le_of_lt h.2 (by decide)
  · decide
  · decide

/-! The decoder on a character of data, by its position in the group. -/

theorem a2b_first (h : n < 64) : a2b 0 l p (toChar n :: s) = a2b 1 n 0 s := by
  rw [a2b, if_neg (toChar_ne_pad h), ofChar_toChar h]
  rfl

theorem a2b_second (h : n < 64) :
    a2b 1 l p (toChar n :: s) =
      (a2b 2 (n % 16) 0 s).map (UInt8.ofNat (l * 4 + n / 16) :: ·) := by
  rw [a2b, if_neg (toChar_ne_pad h), ofChar_toChar h]
  rfl

theorem a2b_third (h : n < 64) :
    a2b 2 l p (toChar n :: s) =
      (a2b 3 (n % 4) 0 s).map (UInt8.ofNat (l * 16 + n / 4) :: ·) := by
  rw [a2b, if_neg (toChar_ne_pad h), ofChar_toChar h]
  rfl

theorem a2b_fourth (h : n < 64) :
    a2b 3 l p (toChar n :: s) = (a2b 0 0 0 s).map (UInt8.ofNat (l * 64 + n) :: ·) := by
  rw [a2b, if_neg (toChar_ne_pad h), ofChar_toChar h]
  rfl

end

theorem ofNat_eq {b : UInt8} {n : Nat} (h : n = b.toNat) : UInt8.ofNat n = b := by
  rw [h]
  exact UInt8.ofNat_toNat

/-- `b64decode` takes back what `b64encode` did. -/
theorem b64decode_b64encode (s : Bytes) : b64decode (b64encode s) = .ok s := by
  unfold b64decode
  fun_induction b64encode s with
  | case1 => rfl
  | case2 a =>
      have ha := a.toNat_lt
      have hpads : a2b 2 (a.toNat % 4 * 16 % 16) 0 ['=', '='] = .ok [] := rfl
      rw [a2b_first (by omega), a2b_second (by omega), hpads, @ofNat_eq a _ (by omega)]
      rfl
  | case3 a b =>
      have ha := a.toNat_lt
      have hb := b.toNat_lt
      have hpad : a2b 3 (b.toNat % 16 * 4 % 4) 0 ['='] = .ok [] := rfl
      rw [a2b_first (by omega), a2b_second (by omega), a2b_third (by omega), hpad,
        @ofNat_eq a _ (by omega), @ofNat_eq b _ (by omega)]
      rfl
  | case4 a b c s ih =>
      have ha := a.toNat_lt
      have hb := b.toNat_lt
      have hc := c.toNat_lt
      rw [a2b_first (by omega), a2b_second (by omega), a2b_third (by omega),
        a2b_fourth (by omega), ih, @ofNat_eq a _ (by omega), @ofNat_eq b _ (by omega),
        @ofNat_eq c _ (by omega)]
      rfl

/-- The pads of an encoding, and the data before them. -/
theorem b64encode_cases (s : Bytes) :
    ∃ (data : Text) (k : Nat), b64encode s = data ++ List.replicate k '=' ∧
      (data.length + k) % 4 = 0 ∧ k < 4 ∧ ∀ c ∈ data, ∃ n < 64, c = toChar n := by
  fun_induction b64encode s with
  | case1 => exact ⟨[], 0, rfl, rfl, by omega, by simp⟩
  | case2 a =>
      have ha := a.toNat_lt
      refine ⟨[toChar (a.toNat / 4), toChar (a.toNat % 4 * 16)], 2, rfl, by simp, by omega, ?_⟩
      simp only [List.mem_cons, List.not_mem_nil, or_false]
      rintro c (rfl | rfl)
      · exact ⟨_, by omega, rfl⟩
      · exact ⟨_, by omega, rfl⟩
  | case3 a b =>
      have ha := a.toNat_lt
      have hb := b.toNat_lt
      refine ⟨[toChar (a.toNat / 4), toChar (a.toNat % 4 * 16 + b.toNat / 16),
        toChar (b.toNat % 16 * 4)], 1, rfl, by simp, by omega, ?_⟩
      simp only [List.mem_cons, List.not_mem_nil, or_false]
      rintro c (rfl | rfl | rfl)
      · exact ⟨_, by omega, rfl⟩
      · exact ⟨_, by omega, rfl⟩
      · exact ⟨_, by omega, rfl⟩
  | case4 a b c s ih =>
      have ha := a.toNat_lt
      have hb := b.toNat_lt
      have hc := c.toNat_lt
      obtain ⟨data, k, hencode, hlength, hk, hdata⟩ := ih
      refine ⟨toChar (a.toNat / 4) :: toChar (a.toNat % 4 * 16 + b.toNat / 16) ::
        toChar (b.toNat % 16 * 4 + c.toNat / 64) :: toChar (c.toNat % 64) :: data,
        k, ?_, ?_, hk, ?_⟩
      · rw [hencode]
        rfl
      · simp only [List.length_cons]
        omega
      · simp only [List.mem_cons]
        rintro d (rfl | rfl | rfl | rfl | hd)
        · exact ⟨_, by omega, rfl⟩
        · exact ⟨_, by omega, rfl⟩
        · exact ⟨_, by omega, rfl⟩
        · exact ⟨_, by omega, rfl⟩
        · exact hdata d hd

/-- `"=" * (-len(s) % 4)`. -/
def padding (s : Text) : Text := List.replicate (-(s.length : Int) % 4).toNat '='

theorem padding_eq {s : Text} {k : Nat} (h : (s.length + k) % 4 = 0) (hk : k < 4) :
    padding s = List.replicate k '=' := by
  unfold padding
  congr 1
  omega

/-- Without its pads, an encoding is a text of the URL-safe alphabet; with them put back, it is
decoded. -/
theorem urlsafe_rstrip (s : Bytes) :
    let text := Text.rstripWhere (· == '=') (urlsafeB64encode s)
    (∀ c ∈ text, isUrlsafeChar c) ∧ urlsafeB64decode (text ++ padding text) = .ok s := by
  obtain ⟨data, k, hencode, hlength, hk, hdata⟩ := b64encode_cases s
  have hurlsafe : urlsafeB64encode s = data.map toUrlsafe ++ List.replicate k '=' := by
    rw [urlsafeB64encode, hencode, List.map_append, List.map_replicate]
    rfl
  have hchars : ∀ c ∈ data.map toUrlsafe, isUrlsafeChar c := by
    intro c hc
    obtain ⟨d, hd, rfl⟩ := List.mem_map.mp hc
    obtain ⟨n, hn, rfl⟩ := hdata d hd
    exact isUrlsafeChar_toChar hn
  have htext : Text.rstripWhere (· == '=') (urlsafeB64encode s) = data.map toUrlsafe := by
    rw [hurlsafe]
    refine Text.rstripWhere_append (fun c hc ↦ by simp [List.eq_of_mem_replicate hc]) ?_
    intro c hc hpad
    have hchar := hchars c (List.mem_of_getLast? hc)
    rw [eq_of_beq hpad] at hchar
    exact absurd hchar (by decide)
  have hpadding : padding (data.map toUrlsafe) = List.replicate k '=' :=
    padding_eq (by rw [List.length_map]; exact hlength) hk
  have hback : (data.map toUrlsafe ++ List.replicate k '=').map ofUrlsafe = b64encode s := by
    have hdata' : (data.map toUrlsafe).map ofUrlsafe = data := by
      rw [List.map_map, List.map_congr_left (g := id), List.map_id]
      intro c hc
      obtain ⟨n, hn, rfl⟩ := hdata c hc
      exact ofUrlsafe_toUrlsafe hn
    rw [hencode, List.map_append, hdata', List.map_replicate]
    rfl
  have hascii : (data.map toUrlsafe ++ List.replicate k '=').all fun c ↦ c.toNat < 128 := by
    refine List.all_eq_true.mpr fun c hc ↦ decide_eq_true ?_
    rcases List.mem_append.mp hc with hc | hc
    · exact isUrlsafeChar_ascii (hchars c hc)
    · rw [List.eq_of_mem_replicate hc]
      decide
  dsimp only
  rw [htext, hpadding, urlsafeB64decode, if_pos hascii, hback]
  exact ⟨hchars, b64decode_b64encode s⟩

end Base64

end FeedgateFetcher.Python
