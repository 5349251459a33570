import FeedgateFetcher.Python.Digits
import FeedgateFetcher.Python.Isoformat

/-!
# What `isoformat` prints

`fromisoformat` reads it back, field by field, and loses nothing but an offset of less
than a second.
-/

namespace FeedgateFetcher.Python.PyDatetime

/-! ## Bytes of a text -/

def asciiBytes (s : Text) : Bytes := s.map fun c ↦ UInt8.ofNat c.toNat

def IsAscii (s : Text) : Prop := ∀ c ∈ s, c.toNat < 128

namespace IsAscii

variable {s t : Text} {c : Char}

theorem append (hs : IsAscii s) (ht : IsAscii t) : IsAscii (s ++ t) :=
  List.forall_mem_append.mpr ⟨hs, ht⟩

theorem cons (hc : c.toNat < 128) (hs : IsAscii s) : IsAscii (c :: s) :=
  List.forall_mem_cons.mpr ⟨hc, hs⟩

end IsAscii

theorem encodeUtf8_ascii {s : Text} (h : IsAscii s) : encodeUtf8 s = asciiBytes s := by
  induction s with
  | nil => rfl
  | cons c s ih =>
      have hsize : c.utf8Size = 1 := Char.utf8Size_eq_one_iff.mpr
        (UInt32.le_iff_toNat_le.mpr (Nat.lt_succ_iff.mp (h c List.mem_cons_self)))
      have hbyte : String.utf8EncodeChar c = [UInt8.ofNat c.toNat] := by
        rw [String.utf8EncodeChar_eq_singleton hsize]
        rfl
      have hs : encodeUtf8 s = asciiBytes s := ih fun d hd ↦ h d (List.mem_cons_of_mem c hd)
      rw [encodeUtf8] at hs ⊢
      rw [List.flatMap_cons, hbyte, hs]
      rfl

theorem byteAt_length (b : Bytes) : byteAt b b.length = 0 := by
  rw [byteAt, List.getElem?_eq_none (Nat.le_refl _)]
  rfl

/-- The bytes from a position on spell a text. -/
def Stands (b : Bytes) (p : Nat) (s : Text) : Prop := b.drop p = asciiBytes s

namespace Stands

variable {b : Bytes} {p : Nat} {s t : Text} {c : Char}

theorem byteAt_eq (h : Stands b p (c :: s)) (hc : c.toNat < 256) : byteAt b p = c.toNat := by
  have hget : b[p]? = some (UInt8.ofNat c.toNat) := by
    have hdrop : (b.drop p)[0]? = some (UInt8.ofNat c.toNat) := by
      rw [h]
      rfl
    rw [List.getElem?_drop] at hdrop
    exact hdrop
  rw [byteAt, hget]
  exact UInt8.toNat_ofNat_of_lt' hc

theorem byteAt_end (h : Stands b p []) : byteAt b p = 0 := by
  have hlen : b.length ≤ p := List.drop_eq_nil_iff.mp h
  rw [byteAt, List.getElem?_eq_none hlen]
  rfl

theorem append (h : Stands b p (s ++ t)) : Stands b (p + s.length) t := by
  unfold Stands at h ⊢
  rw [← List.drop_drop, h, asciiBytes, List.map_append, List.drop_left' (List.length_map _)]
  rfl

theorem tail (h : Stands b p (c :: s)) : Stands b (p + 1) s := @append b p [c] s h

theorem length_eq (h : Stands b p s) (hp : p ≤ b.length) : b.length = p + s.length := by
  have hlen := congrArg List.length h
  rw [List.length_drop, asciiBytes, List.length_map] at hlen
  omega

end Stands

/-! ## Numerals -/

theorem zfill_eq (w n : Nat) : zfill w n = Text.padded 10 w n := rfl

theorem le_length_zfill (w n : Nat) : w ≤ (zfill w n).length := by
  rw [zfill, List.length_append, List.length_replicate]
  omega

theorem length_zfill {w n : Nat} (hw : 0 < w) (h : n < 10 ^ w) : (zfill w n).length = w := by
  have hlen := (Nat.length_toDigits_le_iff (by decide) hw).mpr h
  rw [zfill, List.length_append, List.length_replicate]
  omega

theorem toNat_digitChar {d : Nat} (h : d < 10) : d.digitChar.toNat = 48 + d :=
  (by decide : ∀ d : Fin 10, d.val.digitChar.toNat = 48 + d.val) ⟨d, h⟩

theorem mem_zfill {w n : Nat} {c : Char} (h : c ∈ zfill w n) :
    '0'.toNat ≤ c.toNat ∧ c.toNat ≤ '9'.toNat := by
  rw [zfill, List.mem_append] at h
  rcases h with h | h
  · rw [List.eq_of_mem_replicate h]
    decide
  · exact Text.toNat_mem_toDigits h

theorem isAscii_zfill {w n : Nat} : IsAscii (zfill w n) := fun _ hc ↦
  Nat.lt_of_le_of_lt (mem_zfill hc).2 (by decide)

/-- A numeral of its width is read. -/
theorem Stands.digits {b : Bytes} {p w n : Nat} {s : Text} (hw : 0 < w) (hn : n < 10 ^ w)
    (h : Stands b p (zfill w n ++ s)) : parseDigits b p w = some n ∧ Stands b (p + w) s := by
  have hrest := h.append
  rw [length_zfill hw hn] at hrest
  refine ⟨?_, hrest⟩
  clear hrest
  induction w generalizing n s with
  | zero => exact absurd hw (Nat.lt_irrefl 0)
  | succ w ih =>
      have hdigit : (n % 10).digitChar.toNat = 48 + n % 10 :=
        toNat_digitChar (Nat.mod_lt n (by decide))
      have hlast : ∀ {q : Nat} {t : Text}, Stands b q ((n % 10).digitChar :: t) →
          isDigit (byteAt b q) ∧ byteAt b q - 48 = n % 10 := by
        intro q t hq
        rw [hq.byteAt_eq (by omega), hdigit]
        simp only [isDigit, Bool.and_eq_true, decide_eq_true_eq]
        omega
      rcases Nat.eq_zero_or_pos w with rfl | hpos
      · have hmod : n % 10 = n := Nat.mod_eq_of_lt hn
        have hprint : zfill 1 n = [(n % 10).digitChar] := by
          rw [hmod]
          exact Text.padded_one hn
        rw [Nat.zero_add, hprint] at h
        obtain ⟨hisDigit, hvalue⟩ := hlast h
        simp [parseDigits, hisDigit, hvalue, hmod]
      · rw [zfill_eq, Text.padded_succ (by decide) hpos, List.append_assoc,
          List.singleton_append] at h
        have hhigh : n / 10 < 10 ^ w := by
          rw [Nat.pow_succ] at hn
          exact Nat.div_lt_of_lt_mul (by rwa [Nat.mul_comm])
        have hlow : Stands b (p + w) ((n % 10).digitChar :: s) := by
          have happend := h.append
          rwa [← zfill_eq, length_zfill hpos hhigh] at happend
        obtain ⟨hisDigit, hvalue⟩ := hlast hlow
        have hdiv : n / 10 * 10 + n % 10 = n := by omega
        simp [parseDigits, ih hpos hhigh h, hisDigit, hvalue, hdiv]

/-! ## Times -/

section

variable {b : Bytes} {p pEnd hour minute second microsecond : Nat} {s : Text}

/-- A text that a time may stand before. -/
def EndsTime (s : Text) : Prop := ∀ c ∈ s.head?, c.toNat < 256 ∧ isDigit c.toNat = false

theorem Stands.takeWhile_digits (h : Stands b p s) (hs : EndsTime s) :
    ((b.drop p).takeWhile fun c ↦ isDigit c.toNat) = [] := by
  unfold Stands at h
  rw [h]
  cases s with
  | nil => rfl
  | cons c s =>
      obtain ⟨hlt, hdigit⟩ := hs c rfl
      refine List.takeWhile_cons_of_neg ?_
      rw [UInt8.toNat_ofNat_of_lt' hlt, hdigit]
      exact Bool.false_ne_true

/-! One component of a time, by what stands after it. -/

theorem parseComponents_colon {left value : Nat} (hvalue : parseDigits b p 2 = some value)
    (hc : byteAt b (p + 2) = ':'.toNat) (hgo : p + 3 < pEnd) :
    parseComponents b pEnd (left + 1) true p =
      (parseComponents b pEnd left true (p + 3)).map fun r ↦ (value :: r.1, r.2) := by
  have hsep : (if left = 2 then ':'.toNat == ':'.toNat else true) = true := by
    split
    · rfl
    · rfl
  rw [parseComponents, hvalue]
  simp only [hc, hsep, if_neg (Nat.not_le.mpr hgo), Option.bind_eq_bind, Option.bind_some]
  cases parseComponents b pEnd left true (p + 3) with
  | none => rfl
  | some r => rfl

theorem parseComponents_end {left value : Nat} {hasSeparator : Bool}
    (hvalue : parseDigits b p 2 = some value) (hend : pEnd ≤ p + 3) :
    parseComponents b pEnd (left + 1) hasSeparator p =
      some ([value], .inl (byteAt b (p + 2) != 0)) := by
  rw [parseComponents, hvalue]
  simp only [if_pos hend, Option.bind_eq_bind, Option.bind_some]

theorem parseComponents_fraction {value : Nat} (hvalue : parseDigits b p 2 = some value)
    (hc : byteAt b (p + 2) = '.'.toNat) (hgo : p + 3 < pEnd) :
    parseComponents b pEnd 1 true p = some ([value], .inr (p + 3)) := by
  rw [parseComponents, hvalue]
  simp only [hc, if_neg (Nat.not_le.mpr hgo), Option.bind_eq_bind, Option.bind_some]
  rfl

/-- A time of minutes is read to its end. -/
theorem parseHhMmSsFf_minutes (hhour : hour < 100) (hminute : minute < 100)
    (h : Stands b p (zfill 2 hour ++ ':' :: zfill 2 minute)) :
    parseHhMmSsFf b p (p + 5) = some (⟨hour, minute, 0, 0⟩, false) := by
  obtain ⟨hh, h⟩ := h.digits (by decide) hhour
  have hminutes : Stands b (p + 3) (zfill 2 minute ++ []) := by
    rw [List.append_nil]
    exact h.tail
  obtain ⟨hm, hend⟩ := hminutes.digits (by decide) hminute
  rw [parseHhMmSsFf, parseComponents_colon hh (h.byteAt_eq (by decide)) (by omega),
    parseComponents_end hm (by omega), hend.byteAt_end]
  rfl

theorem length_formatTime (hhour : hour < 100) (hminute : minute < 100) (hsecond : second < 100)
    (hmicro : microsecond < 1000000) :
    (formatTime hour minute second microsecond).length = if microsecond = 0 then 8 else 15 := by
  rw [formatTime]
  simp only [List.length_append, List.length_cons, @length_zfill 2 hour (by decide) hhour,
    @length_zfill 2 minute (by decide) hminute, @length_zfill 2 second (by decide) hsecond]
  split
  · rfl
  · rw [List.length_cons, @length_zfill 6 microsecond (by decide) hmicro]

theorem mem_formatTime {c : Char} (h : c ∈ formatTime hour minute second microsecond) :
    ('0'.toNat ≤ c.toNat ∧ c.toNat ≤ '9'.toNat) ∨ c = ':' ∨ c = '.' := by
  simp only [formatTime, List.mem_append, List.mem_cons] at h
  rcases h with ((h | h | h) | h | h) | h
  · exact .inl (mem_zfill h)
  · exact .inr (.inl h)
  · exact .inl (mem_zfill h)
  · exact .inr (.inl h)
  · exact .inl (mem_zfill h)
  · split at h
    · cases h
    · rcases List.mem_cons.mp h with h | h
      · exact .inr (.inr h)
      · exact .inl (mem_zfill h)

theorem isAscii_formatTime : IsAscii (formatTime hour minute second microsecond) := by
  intro c hc
  rcases mem_formatTime hc with hdigit | rfl | rfl
  · exact Nat.lt_of_le_of_lt hdigit.2 (by decide)
  · decide
  · decide

/-- A time is read, up to what it stands before. -/
theorem parseHhMmSsFf_formatTime (hhour : hour < 100) (hminute : minute < 100)
    (hsecond : second < 100) (hmicro : microsecond < 1000000) (hs : EndsTime s)
    (h : Stands b p (formatTime hour minute second microsecond ++ s))
    (hend : p + (formatTime hour minute second microsecond).length = pEnd) :
    parseHhMmSsFf b p pEnd = some (⟨hour, minute, second, microsecond⟩, byteAt b pEnd != 0) := by
  have hlen : pEnd = p + if microsecond = 0 then 8 else 15 :=
    hend.symm.trans (congrArg (p + ·) (length_formatTime hhour hminute hsecond hmicro))
  simp only [formatTime, List.append_assoc, List.cons_append] at h
  obtain ⟨hh, h⟩ := h.digits (by decide) hhour
  obtain ⟨hm, h'⟩ := h.tail.digits (by decide) hminute
  obtain ⟨hsec, h''⟩ := h'.tail.digits (by decide) hsecond
  have hstart : p + 6 < pEnd := by
    rw [hlen]
    split
    · omega
    · omega
  rw [parseHhMmSsFf, parseComponents_colon hh (h.byteAt_eq (by decide)) (by omega),
    parseComponents_colon hm (h'.byteAt_eq (by decide)) (by omega)]
  by_cases hzero : microsecond = 0
  · rw [if_pos hzero] at hlen
    rw [parseComponents_end hsec (by omega), hlen, hzero]
    rfl
  · rw [if_neg hzero] at hlen h''
    have hstands : Stands b (p + 9) (zfill 6 microsecond ++ s) := h''.tail
    obtain ⟨hfraction, hrest⟩ := hstands.digits (by decide) hmicro
    have hstop : p + 9 + 6 = pEnd := by omega
    have hsix : min (pEnd - (p + 9)) 6 = 6 := by omega
    have hskip := hrest.takeWhile_digits hs
    rw [hstop] at hskip
    rw [parseComponents_fraction hsec (h''.byteAt_eq (by decide)) (by omega)]
    change (parseDigits b (p + 9) (min (pEnd - (p + 9)) 6)).bind _ = _
    rw [hsix, hfraction, Option.bind_some]
    simp only [hskip, List.length_nil, Nat.add_zero, hstop, Nat.lt_irrefl, if_false]
    rfl

end

/-! ## Offsets -/

/-- What is printed after the sign of an offset. -/
def offsetDigits (micros : Nat) : Text :=
  if micros / 1000000 % 60 = 0 ∧ micros % 1000000 = 0 then
    zfill 2 (micros / 3600000000) ++ ':' :: zfill 2 (micros / 60000000 % 60)
  else
    formatTime (micros / 3600000000) (micros / 60000000 % 60) (micros / 1000000 % 60)
      (micros % 1000000)

theorem formatOffset_eq (offset : Int) :
    formatOffset offset = (if offset < 0 then '-' else '+') :: offsetDigits offset.natAbs := rfl

/-- An offset is read in seconds and microseconds. -/
theorem parseHhMmSsFf_offsetDigits {b : Bytes} {p micros : Nat} (hbound : micros < 86400000000)
    (h : Stands b p (offsetDigits micros)) (hp : p ≤ b.length) :
    ∃ tz, parseHhMmSsFf b p b.length = some (tz, false) ∧
      tz.hour * 3600 + tz.minute * 60 + tz.second = micros / 1000000 ∧
      tz.microsecond = micros % 1000000 := by
  have hhour : micros / 3600000000 < 100 := by omega
  have hminute : micros / 60000000 % 60 < 100 := by omega
  have hsecond : micros / 1000000 % 60 < 100 := by omega
  have hmicro : micros % 1000000 < 1000000 := by omega
  have hlen := h.length_eq hp
  by_cases hwhole : micros / 1000000 % 60 = 0 ∧ micros % 1000000 = 0
  · rw [offsetDigits, if_pos hwhole] at h hlen
    rw [List.length_append, List.length_cons, @length_zfill 2 _ (by decide) hhour,
      @length_zfill 2 _ (by decide) hminute] at hlen
    have hminutes := parseHhMmSsFf_minutes hhour hminute h
    rw [← hlen] at hminutes
    exact ⟨_, hminutes, by dsimp only; omega, hwhole.2.symm⟩
  · rw [offsetDigits, if_neg hwhole] at h hlen
    have hends : EndsTime [] := fun c hc ↦ by cases hc
    rw [← List.append_nil (formatTime _ _ _ _)] at h
    have htime := parseHhMmSsFf_formatTime hhour hminute hsecond hmicro hends h hlen.symm
    rw [byteAt_length] at htime
    exact ⟨_, htime, by dsimp only; omega, rfl⟩

/-- What comes back of an offset: zero, if it is less than a second. -/
def kept (offset : Int) : Int := if offset.natAbs < 1000000 then 0 else offset

theorem tzFromResults_eq {offset : Int} (hbound : -microsPerDay < offset ∧ offset < microsPerDay)
    {seconds micros : Nat} (hseconds : seconds = offset.natAbs / 1000000)
    (hmicros : micros = offset.natAbs % 1000000) :
    let sign : Int := if offset < 0 then -1 else 1
    tzFromResults (sign * seconds) (sign * micros) = some (kept offset) := by
  intro sign
  have hoffset : sign * seconds * microsPerSecond + sign * micros = offset := by
    unfold sign
    split
    · simp only [microsPerSecond]
      omega
    · simp only [microsPerSecond]
      omega
  unfold tzFromResults kept
  simp only [hoffset, if_pos hbound]
  by_cases hsmall : offset.natAbs < 1000000
  · rw [if_pos hsmall, if_pos]
    rw [hseconds, Nat.div_eq_of_lt hsmall]
    exact Int.mul_zero _
  · rw [if_neg hsmall, if_neg]
    unfold sign
    split
    · omega
    · omega

/-! ## Where the zone starts -/

/-- The bytes at which the time of a text ends. -/
def startsZone (c : UInt8) : Bool :=
  c.toNat == '+'.toNat || c.toNat == '-'.toNat || c.toNat == 'Z'.toNat

theorem startsZone_formatTime {hour minute second microsecond : Nat} :
    ∀ c ∈ asciiBytes (formatTime hour minute second microsecond), startsZone c = false := by
  intro c h
  obtain ⟨d, hd, rfl⟩ := List.mem_map.mp h
  rcases mem_formatTime hd with ⟨hlow, hhigh⟩ | rfl | rfl
  · have h0 : 48 ≤ d.toNat := hlow
    have h9 : d.toNat ≤ 57 := hhigh
    have hbyte : (UInt8.ofNat d.toNat).toNat = d.toNat :=
      UInt8.toNat_ofNat_of_lt' (Nat.lt_of_le_of_lt h9 (by decide))
    have hplus : '+'.toNat = 43 := rfl
    have hminus : '-'.toNat = 45 := rfl
    have hz : 'Z'.toNat = 90 := rfl
    simp only [startsZone, hbyte, hplus, hminus, hz, Bool.or_eq_false_iff, beq_eq_false_iff_ne]
    omega
  · rfl
  · rfl

theorem findIdx_startsZone {b : Bytes} {p hour minute second microsecond : Nat} {s : Text}
    (h : Stands b p (formatTime hour minute second microsecond ++ s)) :
    (b.drop p).findIdx startsZone =
      (formatTime hour minute second microsecond).length + (asciiBytes s).findIdx startsZone := by
  have hdrop : b.drop p =
      asciiBytes (formatTime hour minute second microsecond) ++ asciiBytes s := by
    rw [asciiBytes, asciiBytes, ← List.map_append]
    exact h
  have hfind := List.findIdx_eq_length_of_false
    (@startsZone_formatTime hour minute second microsecond)
  rw [hdrop, List.findIdx_append, hfind, if_neg (Nat.lt_irrefl _), Nat.add_comm]
  exact congrArg (· + _) (List.length_map _)

/-! ## Times with their zones -/

def formatZone (utcoffset : Option Int) : Text := utcoffset.elim [] formatOffset

theorem isAscii_formatZone (utcoffset : Option Int) : IsAscii (formatZone utcoffset) := by
  cases utcoffset with
  | none => exact List.forall_mem_nil _
  | some offset =>
      rw [formatZone, Option.elim_some, formatOffset_eq]
      refine .cons (by split <;> decide) ?_
      rw [offsetDigits]
      split
      · exact isAscii_zfill.append (.cons (by decide) isAscii_zfill)
      · exact isAscii_formatTime

theorem endsTime_formatZone (utcoffset : Option Int) : EndsTime (formatZone utcoffset) := by
  intro c hc
  cases utcoffset with
  | none => cases hc
  | some offset =>
      rw [formatZone, Option.elim_some, formatOffset_eq] at hc
      split at hc
      · cases hc
        decide
      · cases hc
        decide

section

variable {b : Bytes} {p tzPos : Nat} {time : TimeFields}

theorem parseIsoformatTime_naive (hscan : p + (b.drop p).findIdx startsZone = b.length)
    (hread : parseHhMmSsFf b p b.length = some (time, false)) :
    parseIsoformatTime b p = some (time, none) := by
  have hpos : (p + (b.drop p).findIdx fun c ↦
      c.toNat == '+'.toNat || c.toNat == '-'.toNat || c.toNat == 'Z'.toNat) = b.length := hscan
  simp only [parseIsoformatTime, hpos, hread, Option.bind_eq_bind, Option.bind_some, if_true]
  rfl

theorem parseIsoformatTime_aware {more : Bool} {tz : TimeFields} {offset utcoffset : Int}
    (hscan : p + (b.drop p).findIdx startsZone = tzPos)
    (hread : parseHhMmSsFf b p tzPos = some (time, more)) (hgo : tzPos < b.length)
    (hsign : byteAt b tzPos = if offset < 0 then '-'.toNat else '+'.toNat)
    (htz : parseHhMmSsFf b (tzPos + 1) b.length = some (tz, false))
    (hresult : let sign : Int := if offset < 0 then -1 else 1
      tzFromResults (sign * (tz.hour * 3600 + tz.minute * 60 + tz.second))
        (sign * tz.microsecond) = some utcoffset) :
    parseIsoformatTime b p = some (time, some utcoffset) := by
  have hpos : (p + (b.drop p).findIdx fun c ↦
      c.toNat == '+'.toNat || c.toNat == '-'.toNat || c.toNat == 'Z'.toNat) = tzPos := hscan
  have hz : ¬byteAt b tzPos = 'Z'.toNat := by
    rw [hsign]
    split
    · decide
    · decide
  have htzsign : (if byteAt b tzPos = '-'.toNat then -1 else 1 : Int) =
      if offset < 0 then -1 else 1 := by
    rw [hsign]
    by_cases hneg : offset < 0
    · rw [if_pos hneg, if_pos hneg, if_pos rfl]
    · rw [if_neg hneg, if_neg hneg, if_neg (by decide)]
  simp only [parseIsoformatTime, hpos, hread, if_neg (Nat.ne_of_lt hgo), if_neg hz, htz, htzsign,
    Option.bind_eq_bind, Option.bind_some]
  rw [hresult]
  rfl

/-- A time and its zone are read, and the zone is kept if it is not too small. -/
theorem parseIsoformatTime_eq {utcoffset : Option Int}
    (htime : time.hour ≤ 23 ∧ time.minute ≤ 59 ∧ time.second ≤ 59 ∧ time.microsecond ≤ 999999)
    (hoffset : ∀ d ∈ utcoffset, -microsPerDay < d ∧ d < microsPerDay)
    (h : Stands b p (formatTime time.hour time.minute time.second time.microsecond ++
      formatZone utcoffset)) (hp : p ≤ b.length) :
    parseIsoformatTime b p = some (time, utcoffset.map kept) := by
  obtain ⟨hhour, hminute, hsecond, hmicro⟩ := htime
  obtain ⟨tzPos, hend⟩ : ∃ tzPos,
      p + (formatTime time.hour time.minute time.second time.microsecond).length = tzPos :=
    ⟨_, rfl⟩
  have hread := parseHhMmSsFf_formatTime (by omega) (by omega) (by omega) (by omega)
    (endsTime_formatZone utcoffset) h hend
  have hlen := h.length_eq hp
  have hzone := h.append
  have hscan : p + (b.drop p).findIdx startsZone =
      tzPos + (asciiBytes (formatZone utcoffset)).findIdx startsZone := by
    rw [findIdx_startsZone h, ← Nat.add_assoc, hend]
  rw [List.length_append, ← Nat.add_assoc, hend] at hlen
  rw [hend] at hzone
  cases utcoffset with
  | none =>
      have hstop : tzPos = b.length := hlen.symm
      rw [hstop] at hread hscan
      rw [byteAt_length] at hread
      exact parseIsoformatTime_naive hscan hread
  | some offset =>
      have hbound := hoffset offset rfl
      have hmicros : offset.natAbs < 86400000000 := by
        simp only [microsPerDay] at hbound
        omega
      rw [formatZone, Option.elim_some, formatOffset_eq] at hlen hzone hscan
      have hsign : byteAt b tzPos = if offset < 0 then '-'.toNat else '+'.toNat := by
        rw [hzone.byteAt_eq (by split <;> decide), apply_ite Char.toNat]
      have hpos : p + (b.drop p).findIdx startsZone = tzPos := by
        rw [hscan, asciiBytes, List.map_cons, List.findIdx_cons]
        split
        · rfl
        · rfl
      rw [List.length_cons] at hlen
      obtain ⟨tz, htz, hseconds, hfraction⟩ :=
        parseHhMmSsFf_offsetDigits hmicros hzone.tail (by omega)
      refine parseIsoformatTime_aware hpos hread (by omega) hsign htz ?_
      have hresult := tzFromResults_eq hbound hseconds hfraction
      simpa using hresult

end

/-! ## Dates -/

section

variable {b : Bytes} {year month day : Nat} {s : Text}

theorem Stands.isDigit_zfill {p w n : Nat} (hw : 0 < w) (hn : n < 10 ^ w)
    (h : Stands b p (zfill w n ++ s)) : isDigit (byteAt b p) := by
  have hlen := length_zfill hw hn
  cases hdigits : zfill w n with
  | nil =>
      rw [hdigits] at hlen
      exact absurd hlen (Nat.ne_of_lt hw)
  | cons c ds =>
      have hc : c ∈ zfill w n := by
        rw [hdigits]
        exact List.mem_cons_self
      obtain ⟨hlow, hhigh⟩ := mem_zfill hc
      have h0 : 48 ≤ c.toNat := hlow
      have h9 : c.toNat ≤ 57 := hhigh
      rw [hdigits] at h
      rw [h.byteAt_eq (Nat.lt_of_le_of_lt h9 (by decide))]
      simp only [isDigit, Bool.and_eq_true, decide_eq_true_eq]
      exact ⟨h0, h9⟩

theorem ne_of_isDigit {n : Nat} {c : Char} (h : isDigit n) (hc : ¬isDigit c.toNat) :
    n ≠ c.toNat := by
  rintro rfl
  exact hc h

/-- A date of full width is found before its separator, and read. -/
theorem parseIsoformatDate_eq (hyear : year < 10000) (hmonth : month < 100) (hday : day < 100)
    (h : Stands b 0 (zfill 4 year ++ '-' :: (zfill 2 month ++ '-' :: (zfill 2 day ++ s)))) :
    findSeparator b = some 10 ∧ parseIsoformatDate b 10 = some (year, month, day) ∧
      Stands b 10 s := by
  have hlen : 7 < b.length := by
    have htext := h.length_eq (Nat.zero_le _)
    simp only [List.length_append, List.length_cons, @length_zfill 4 year (by decide) hyear,
      @length_zfill 2 month (by decide) hmonth, @length_zfill 2 day (by decide) hday] at htext
    omega
  obtain ⟨hy, h4⟩ := h.digits (by decide) hyear
  have hdash := h4.byteAt_eq (by decide)
  have h5 := h4.tail
  have hw : byteAt b 5 ≠ 'W'.toNat :=
    ne_of_isDigit (h5.isDigit_zfill (by decide) hmonth) (by decide)
  obtain ⟨hm, h7⟩ := h5.digits (by decide) hmonth
  have hdash' := h7.byteAt_eq (by decide)
  obtain ⟨hd, h10⟩ := h7.tail.digits (by decide) hday
  simp only [Nat.zero_add, Nat.reduceAdd] at hdash hm hdash' hd h10
  refine ⟨?_, ?_, h10⟩
  · simp only [findSeparator, if_neg (Nat.ne_of_gt hlen), hdash, if_true, if_neg hw]
  · simp only [parseIsoformatDate, Option.bind_eq_bind, hy, Option.bind_some, hdash, if_true,
      Nat.reduceAdd, if_neg hw, hm, hdash', hd]
    rfl

end

/-! ## The whole text -/

theorem isoformat_eq (t : PyDatetime) : t.isoformat =
    zfill 4 t.year ++ '-' :: (zfill 2 t.month ++ '-' :: (zfill 2 t.day ++
      'T' :: (formatTime t.hour t.minute t.second t.microsecond ++ formatZone t.utcoffset))) := by
  rw [isoformat]
  cases t.utcoffset with
  | none => simp [formatZone]
  | some offset => simp [formatZone]

theorem lt_length_isoformat (t : PyDatetime) : 10 < t.isoformat.length := by
  have hyear : 4 ≤ (zfill 4 t.year).length := le_length_zfill 4 t.year
  have hmonth : 2 ≤ (zfill 2 t.month).length := le_length_zfill 2 t.month
  have hday : 2 ≤ (zfill 2 t.day).length := le_length_zfill 2 t.day
  rw [isoformat_eq]
  simp only [List.length_append, List.length_cons]
  omega

theorem isAscii_isoformat (t : PyDatetime) : IsAscii t.isoformat := by
  rw [isoformat_eq]
  have htime : IsAscii (formatTime t.hour t.minute t.second t.microsecond ++
      formatZone t.utcoffset) := isAscii_formatTime.append (isAscii_formatZone t.utcoffset)
  exact isAscii_zfill.append (.cons (by decide) (isAscii_zfill.append (.cons (by decide)
    (isAscii_zfill.append (.cons (by decide) htime)))))

theorem daysInMonth_le (year month : Nat) : Datetime.daysInMonth year month ≤ 31 := by
  unfold Datetime.daysInMonth
  repeat' split
  all_goals decide

theorem kept_bound {d : Int} (h : -microsPerDay < d ∧ d < microsPerDay) :
    -microsPerDay < kept d ∧ kept d < microsPerDay := by
  rw [kept]
  split
  · decide
  · exact h

/-- The date that is read back. -/
def readBack (t : PyDatetime) : PyDatetime where
  year := t.year
  month := t.month
  day := t.day
  hour := t.hour
  minute := t.minute
  second := t.second
  microsecond := t.microsecond
  utcoffset := t.utcoffset.map kept
  date_valid := t.date_valid
  time_valid := t.time_valid
  offset_valid := by
    intro d hd
    obtain ⟨offset, hoffset, rfl⟩ := Option.map_eq_some_iff.mp hd
    exact kept_bound (t.offset_valid offset hoffset)

theorem parseIsoformat_isoformat {b : Bytes} (t : PyDatetime) (h : Stands b 0 t.isoformat) :
    parseIsoformat b = some t.readBack := by
  have hlen := h.length_eq (Nat.zero_le _)
  have hlong := lt_length_isoformat t
  have hgo : 10 < b.length := by omega
  obtain ⟨⟨_, hyear⟩, ⟨_, hmonth⟩, _, hday⟩ := t.date_valid
  have hmonthDays := daysInMonth_le t.year t.month
  rw [isoformat_eq] at h
  obtain ⟨hseparator, hdate, h10⟩ := parseIsoformatDate_eq (by omega) (by omega) (by omega) h
  have hwidth : separatorWidth (byteAt b 10) = 1 := by
    rw [h10.byteAt_eq (by decide)]
    rfl
  have htime := @parseIsoformatTime_eq b 11 ⟨t.hour, t.minute, t.second, t.microsecond⟩
    t.utcoffset t.time_valid t.offset_valid h10.tail hgo
  simp only [parseIsoformat, hseparator, hdate, hwidth, htime, if_pos hgo, Option.bind_eq_bind,
    Option.bind_some, Nat.reduceAdd]
  exact dif_pos (And.intro t.date_valid (And.intro t.time_valid t.readBack.offset_valid))

/-- No code point of a text is a surrogate. -/
theorem sanitize_ofText (s : Text) : sanitize (CodePoints.ofText s) = CodePoints.ofText s := by
  have hnone : ([7, 8, 10].find? fun i ↦ (CodePoints.ofText s)[i]?.any isSurrogate) = none := by
    rw [List.find?_eq_none]
    intro i _ hi
    obtain ⟨n, hn, hsurrogate⟩ := (Option.any_eq_true _ _).mp hi
    obtain ⟨c, _, rfl⟩ := List.mem_map.mp (List.mem_of_getElem? hn)
    have hvalid : c.toNat < 0xD800 ∨ (0xDFFF < c.toNat ∧ c.toNat < 0x110000) := c.valid
    simp only [isSurrogate, Bool.and_eq_true, decide_eq_true_eq] at hsurrogate
    omega
  rw [sanitize, hnone]

theorem fromisoformat_isoformat (t : PyDatetime) :
    fromisoformat (CodePoints.ofText t.isoformat) = .ok t.readBack := by
  have hlen : ¬(CodePoints.ofText t.isoformat).length < 7 := by
    have hlong := lt_length_isoformat t
    rw [CodePoints.ofText, List.length_map]
    omega
  have hparse : parseIsoformat (encodeUtf8 t.isoformat) = some t.readBack := by
    rw [encodeUtf8_ascii (isAscii_isoformat t)]
    exact parseIsoformat_isoformat t rfl
  rw [fromisoformat, sanitize_ofText, CodePoints.toText?_ofText]
  simp only [Option.bind_eq_bind, Option.bind_some, if_neg hlen, hparse]

theorem kept_eq_iff {d : Int} : kept d = d ↔ d = 0 ∨ 1000000 ≤ d.natAbs := by
  rw [kept]
  split
  · omega
  · omega

theorem readBack_eq_iff {t : PyDatetime} :
    t.readBack = t ↔ ∀ d ∈ t.utcoffset, d = 0 ∨ 1000000 ≤ d.natAbs := by
  obtain ⟨year, month, day, hour, minute, second, microsecond, utcoffset, hdate, htime, hzone⟩ := t
  simp only [readBack, mk.injEq, true_and]
  cases utcoffset with
  | none => exact iff_of_true rfl fun d hd ↦ by cases hd
  | some offset => simp only [Option.map_some, Option.some.injEq, Option.mem_some_iff, kept_eq_iff,
      forall_eq']

/-- A date is read back as it was, unless its offset is less than a second. -/
theorem fromisoformat_isoformat_iff {t : PyDatetime} :
    fromisoformat (CodePoints.ofText t.isoformat) = .ok t ↔
      ∀ d ∈ t.utcoffset, d = 0 ∨ 1000000 ≤ d.natAbs := by
  rw [fromisoformat_isoformat, Except.ok.injEq]
  exact readBack_eq_iff

end FeedgateFetcher.Python.PyDatetime
