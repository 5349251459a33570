import FeedgateFetcher.Python.Calendar
import FeedgateFetcher.Python.Digits
import FeedgateFetcher.Python.Email
import FeedgateFetcher.Python.IsoformatText

/-!
# The dates of HTTP

The three spellings that a date may have in a header, and that `parsedate_to_datetime` reads each
of them as the instant it was printed for.
-/

namespace FeedgateFetcher.Python

namespace Text

/-! ## Words and numerals -/

/-- Words with a space between any two of them fall apart into these words. -/
theorem splitSpace_intercalate {ws : List Text} (h : ∀ w ∈ ws, ∀ c ∈ w, isSpace c = false) :
    splitSpace ([' '].intercalate ws) = ws.filter fun w ↦ !w.isEmpty := by
  induction ws with
  | nil => rfl
  | cons w ws ih =>
      have hw := h w List.mem_cons_self
      have hws := fun v hv ↦ h v (List.mem_cons_of_mem w hv)
      cases ws with
      | nil => rw [List.intercalate_singleton, splitSpace, List.splitOnP_eq_singleton hw]
      | cons v vs =>
          have hsplit : List.splitOnP isSpace ([' '].intercalate (w :: v :: vs)) =
              w :: List.splitOnP isSpace ([' '].intercalate (v :: vs)) := by
            rw [List.intercalate_cons_cons, List.append_assoc]
            exact List.splitOnP_append_cons_of_forall_mem hw ' ' (by decide) _
          rw [splitSpace, hsplit, List.filter_cons, List.filter_cons]
          exact congrArg (fun rest ↦ if (!w.isEmpty) = true then w :: rest else rest) (ih hws)

theorem split_append {sep : Char} {a : Text} (h : sep ∉ a) (s : Text) :
    split sep (a ++ sep :: s) = a :: split sep s := by
  induction a with
  | nil => rw [List.nil_append, split, if_pos rfl]
  | cons c a ih =>
      rw [List.mem_cons, not_or] at h
      rw [List.cons_append, split, if_neg (Ne.symm h.1), ih h.2]

/-- Decimal digits of ASCII, and at least one of them. -/
structure IsNumeral (s : Text) : Prop where
  ne_nil : s ≠ []
  digit : ∀ c ∈ s, '0'.toNat ≤ c.toNat ∧ c.toNat ≤ '9'.toNat

namespace IsNumeral

variable {s : Text} {c : Char}

theorem isSpace (h : IsNumeral s) (hc : c ∈ s) : isSpace c = false := by
  have hdigit := h.digit c hc
  have hlower : 48 ≤ c.toNat := hdigit.1
  have hupper : c.toNat ≤ 57 := hdigit.2
  simp only [Text.isSpace, Bool.or_eq_false_iff, Bool.and_eq_false_iff, decide_eq_false_iff_not,
    beq_eq_false_iff_ne]
  omega

theorem notMem (h : IsNumeral s) (hc : c.toNat < 48 ∨ 57 < c.toNat) : c ∉ s := by
  intro hmem
  have hlower : 48 ≤ c.toNat := (h.digit c hmem).1
  have hupper : c.toNat ≤ 57 := (h.digit c hmem).2
  omega

theorem strip (h : IsNumeral s) : stripWhere isIntSpace s = s := by
  have hspace : ∀ c ∈ s, ¬isIntSpace c := by
    intro c hc
    rw [isIntSpace_of_isSpace (h.isSpace hc)]
    exact Bool.false_ne_true
  exact stripWhere_eq_self (fun c hc ↦ hspace c (List.mem_of_mem_head? hc))
    fun c hc ↦ hspace c (List.mem_of_getLast? hc)

theorem digits (h : IsNumeral s) :
    digits s = some (s.map fun c ↦ c.toNat - '0'.toNat) := by
  have hvalue : ∀ c ∈ s, digitValue c = some (c.toNat - '0'.toNat) := by
    intro c hc
    have hdigit := h.digit c hc
    have hlower : 48 ≤ c.toNat := hdigit.1
    have hupper : c.toNat < 48 + 10 := Nat.lt_succ_of_le hdigit.2
    rw [digitValue, decimalZeros, List.find?_cons_of_pos (by simp [hlower, hupper])]
    rfl
  have hunderscore : '_' ∉ s := h.notMem (by decide)
  have hne := h.ne_nil
  clear h
  fun_induction Text.digits s with
  | case1 => exact absurd rfl hne
  | case2 c =>
      rw [hvalue c List.mem_cons_self]
      rfl
  | case3 c s ih => exact absurd (List.mem_cons_of_mem c List.mem_cons_self) hunderscore
  | case4 c s hs _ ih =>
      have hne' : s ≠ [] := fun hnil ↦ hs hnil
      rw [hvalue c List.mem_cons_self, ih (fun d hd ↦ hvalue d (List.mem_cons_of_mem c hd))
        (fun hmem ↦ hunderscore (List.mem_cons_of_mem c hmem)) hne']
      rfl

/-- `int` reads a numeral as its value. -/
theorem toInt (h : IsNumeral s) (hlength : s.length ≤ maxStrDigits) :
    toInt s = .ok (ofDigits (s.map fun c ↦ c.toNat - '0'.toNat) : Nat) := by
  have hnat : toNat s = .ok (ofDigits (s.map fun c ↦ c.toNat - '0'.toNat)) := by
    rw [toNat, h.digits]
    dsimp only
    rw [List.length_map, if_pos hlength]
  unfold Text.toInt
  rw [h.strip]
  split
  · exact absurd List.mem_cons_self (h.notMem (by decide))
  · exact absurd List.mem_cons_self (h.notMem (by decide))
  · rw [hnat]
    rfl

end IsNumeral

theorem isNumeral_zfill (w n : Nat) : IsNumeral (PyDatetime.zfill w n) where
  ne_nil := List.append_ne_nil_of_right_ne_nil _ Nat.toDigits_ne_nil
  digit _ hc := PyDatetime.mem_zfill hc

theorem ofDigits_zfill (w n : Nat) :
    ofDigits ((PyDatetime.zfill w n).map fun c ↦ c.toNat - '0'.toNat) = n := by
  have hzeros : ∀ k : Nat, (List.replicate k 0).foldl (fun n d ↦ n * 10 + d) 0 = 0 := by
    intro k
    induction k with
    | zero => rfl
    | succ k ih =>
        rw [List.replicate_succ, List.foldl_cons]
        exact ih
  have hdigits : ofDigits ((Nat.toDigits 10 n).map fun c ↦ c.toNat - '0'.toNat) = n :=
    ofDigits_toDigits
  rw [PyDatetime.zfill, List.map_append, List.map_replicate, ofDigits, List.foldl_append,
    show '0'.toNat - '0'.toNat = 0 from rfl, hzeros]
  exact hdigits

/-- A number that is printed with leading zeros is read back. -/
theorem toInt_zfill {w n : Nat} (hw : 0 < w) (hw' : w ≤ maxStrDigits) (h : n < 10 ^ w) :
    toInt (PyDatetime.zfill w n) = .ok n := by
  have hlength : (PyDatetime.zfill w n).length ≤ maxStrDigits :=
    (PyDatetime.length_zfill hw h).trans_le hw'
  rw [(isNumeral_zfill w n).toInt hlength, ofDigits_zfill]

end Text

/-! ## The spellings -/

/-- The three formats that a recipient has to understand. -/
inductive HttpDate where
  | imfFixdate
  | rfc850
  | asctime
deriving DecidableEq, Repr

namespace HttpDate

open Text PyDatetime

def shortDayNames : List Text :=
  ["Mon", "Tue", "Wed", "Thu", "Fri", "Sat", "Sun"].map String.toList

def longDayNames : List Text :=
  ["Monday", "Tuesday", "Wednesday", "Thursday", "Friday", "Saturday", "Sunday"].map String.toList

def shortMonthNames : List Text :=
  ["Jan", "Feb", "Mar", "Apr", "May", "Jun", "Jul", "Aug", "Sep", "Oct", "Nov", "Dec"].map
    String.toList

/-- The day of the week, zero for a Monday. -/
def weekday (t : PyDatetime) : Nat := (ymdToOrd t.year t.month t.day + 6) % 7

def monthName (t : PyDatetime) : Text := shortMonthNames.getD (t.month - 1) []

def timeOfDay (t : PyDatetime) : Text :=
  zfill 2 t.hour ++ ':' :: (zfill 2 t.minute ++ ':' :: zfill 2 t.second)

/-- The day of the month in two columns, which leaves two spaces before a single digit. -/
def dayInColumns (t : PyDatetime) : List Text :=
  if t.day < 10 then [[], zfill 1 t.day] else [zfill 2 t.day]

/-- The words of a date. -/
def words (t : PyDatetime) : HttpDate → List Text
  | .imfFixdate =>
    [shortDayNames.getD (weekday t) [] ++ [','], zfill 2 t.day, monthName t, zfill 4 t.year,
      timeOfDay t, "GMT".toList]
  | .rfc850 =>
    [longDayNames.getD (weekday t) [] ++ [','],
      zfill 2 t.day ++ '-' :: (monthName t ++ '-' :: zfill 2 (t.year % 100)),
      timeOfDay t, "GMT".toList]
  | .asctime =>
    shortDayNames.getD (weekday t) [] :: monthName t ::
      (dayInColumns t ++ [timeOfDay t, zfill 4 t.year])

def spell (t : PyDatetime) (f : HttpDate) : Text := [' '].intercalate (words t f)

/-- The years that are told apart: a year of two digits is taken for one of the hundred years from
1969 on, whatever the format. -/
def Covers (year : Nat) : HttpDate → Prop
  | .rfc850 => 1969 ≤ year ∧ year ≤ 2068
  | _ => 100 ≤ year

instance (year : Nat) : (f : HttpDate) → Decidable (Covers year f)
  | .imfFixdate => inferInstanceAs (Decidable (100 ≤ year))
  | .rfc850 => inferInstanceAs (Decidable (_ ∧ _))
  | .asctime => inferInstanceAs (Decidable (100 ≤ year))

/-! ## Their words -/

variable (t : PyDatetime)

theorem weekday_lt : weekday t < 7 := Nat.mod_lt _ (by decide)

/-- A text without white space, as a test. -/
theorem isSpace_of_all {s : Text} (h : s.all (fun c ↦ !Text.isSpace c) = true) :
    ∀ c ∈ s, Text.isSpace c = false := by
  intro c hc
  exact Bool.not_eq_true' _ |>.mp (List.all_eq_true.mp h c hc)

theorem shortDayName_spec : ∀ k < 7, (shortDayNames.getD k []).isEmpty = false ∧
    (∀ c ∈ shortDayNames.getD k [], Text.isSpace c = false) ∧
    Email.dayNames.contains (lower (shortDayNames.getD k [])) = true := by
  have htable : ∀ k < 7, (shortDayNames.getD k []).isEmpty = false ∧
      (shortDayNames.getD k []).all (fun c ↦ !Text.isSpace c) = true ∧
      Email.dayNames.contains (lower (shortDayNames.getD k [])) = true := by
    decide
  intro k hk
  exact (htable k hk).imp_right (And.imp_left isSpace_of_all)

theorem longDayName_spec : ∀ k < 7, ∀ c ∈ longDayNames.getD k [], Text.isSpace c = false := by
  have htable : ∀ k < 7, (longDayNames.getD k []).all (fun c ↦ !Text.isSpace c) = true := by
    decide
  intro k hk
  exact isSpace_of_all (htable k hk)

theorem shortMonthName_spec : ∀ k < 12, (shortMonthNames.getD k []).isEmpty = false ∧
    (∀ c ∈ shortMonthNames.getD k [], Text.isSpace c = false) ∧
    '-' ∉ shortMonthNames.getD k [] ∧
    Email.monthNames.contains (lower (shortMonthNames.getD k [])) = true ∧
    Email.monthNames.findIdx? (· == lower (shortMonthNames.getD k [])) = some k := by
  have htable : ∀ k < 12, (shortMonthNames.getD k []).isEmpty = false ∧
      (shortMonthNames.getD k []).all (fun c ↦ !Text.isSpace c) = true ∧
      '-' ∉ shortMonthNames.getD k [] ∧
      Email.monthNames.contains (lower (shortMonthNames.getD k [])) = true ∧
      Email.monthNames.findIdx? (· == lower (shortMonthNames.getD k [])) = some k := by
    decide
  intro k hk
  exact (htable k hk).imp_right (And.imp_left isSpace_of_all)

theorem month_lt : t.month - 1 < 12 := by
  have hmonth := t.date_valid.2.1
  omega

theorem isSpace_zfill {w n : Nat} : ∀ c ∈ zfill w n, Text.isSpace c = false :=
  fun _ hc ↦ (isNumeral_zfill w n).isSpace hc

theorem isSpace_timeOfDay : ∀ c ∈ timeOfDay t, Text.isSpace c = false := by
  intro c hc
  simp only [timeOfDay, List.mem_append, List.mem_cons] at hc
  rcases hc with hc | rfl | hc | rfl | hc
  · exact isSpace_zfill c hc
  · decide
  · exact isSpace_zfill c hc
  · decide
  · exact isSpace_zfill c hc

theorem isSpace_words (f : HttpDate) : ∀ w ∈ words t f, ∀ c ∈ w, Text.isSpace c = false := by
  have hshort := (shortDayName_spec (weekday t) (weekday_lt t)).2.1
  have hlong := longDayName_spec (weekday t) (weekday_lt t)
  have hmonth := (shortMonthName_spec (t.month - 1) (month_lt t)).2.1
  have hcomma : ∀ {name : Text}, (∀ c ∈ name, Text.isSpace c = false) →
      ∀ c ∈ name ++ [','], Text.isSpace c = false := by
    intro name hname c hc
    rcases List.mem_append.mp hc with hc | hc
    · exact hname c hc
    · obtain rfl := List.mem_singleton.mp hc
      decide
  have hdate : ∀ c ∈ zfill 2 t.day ++ '-' :: (monthName t ++ '-' :: zfill 2 (t.year % 100)),
      Text.isSpace c = false := by
    intro c hc
    simp only [List.mem_append, List.mem_cons] at hc
    rcases hc with hc | rfl | hc | rfl | hc
    · exact isSpace_zfill c hc
    · decide
    · exact hmonth c hc
    · decide
    · exact isSpace_zfill c hc
  have hgmt : ∀ c ∈ "GMT".toList, Text.isSpace c = false := isSpace_of_all (by decide)
  cases f with
  | imfFixdate =>
      simp only [words, List.forall_mem_cons]
      exact ⟨hcomma hshort, isSpace_zfill, hmonth, isSpace_zfill, isSpace_timeOfDay t, hgmt, nofun⟩
  | rfc850 =>
      simp only [words, List.forall_mem_cons]
      exact ⟨hcomma hlong, hdate, isSpace_timeOfDay t, hgmt, nofun⟩
  | asctime =>
      simp only [words, List.forall_mem_cons, List.forall_mem_append]
      refine ⟨hshort, hmonth, ?_, isSpace_timeOfDay t, isSpace_zfill, nofun⟩
      unfold dayInColumns
      split
      · simp only [List.forall_mem_cons]
        exact ⟨nofun, isSpace_zfill, nofun⟩
      · simp only [List.forall_mem_cons]
        exact ⟨isSpace_zfill, nofun⟩

theorem isEmpty_zfill {w n : Nat} : (zfill w n).isEmpty = false :=
  List.isEmpty_eq_false_iff.mpr (isNumeral_zfill w n).ne_nil

theorem isEmpty_timeOfDay : (timeOfDay t).isEmpty = false := by
  rw [timeOfDay]
  exact List.isEmpty_eq_false_iff.mpr (List.append_ne_nil_of_right_ne_nil _ (List.cons_ne_nil _ _))

/-- The words of the fields of a date, with its time zone. -/
def fields : HttpDate → List Text
  | .imfFixdate => [zfill 2 t.day, monthName t, zfill 4 t.year, timeOfDay t, "GMT".toList]
  | .rfc850 => [zfill 2 t.day, monthName t, zfill 2 (t.year % 100), timeOfDay t, "GMT".toList]
  | .asctime =>
    [monthName t, zfill (if t.day < 10 then 1 else 2) t.day, timeOfDay t, zfill 4 t.year, []]

theorem dropDayName_comma (name : Text) (ws : List Text) :
    Email.dropDayName ((name ++ [',']) :: ws) = ws := by
  rw [Email.dropDayName, List.getLast?_concat]
  rfl

theorem dropDayName_name {name : Text} (h : Email.dayNames.contains (lower name) = true)
    (ws : List Text) : Email.dropDayName (name :: ws) = ws := by
  rw [Email.dropDayName, h, Bool.or_true, if_pos rfl]

theorem find_of_notMem {c : Char} {s : Text} (h : c ∉ s) : find c s = none := by
  refine List.findIdx?_eq_none_iff.mpr fun d hd ↦ ?_
  exact beq_eq_false_iff_ne.mpr fun heq ↦ h (heq ▸ hd)

/-- The parser finds these words. -/
theorem splitZone_spell (f : HttpDate) :
    (Email.splitZone (Email.splitRfc850 (Email.dropDayName (splitSpace (spell t f))))).take 5 =
      fields t f := by
  obtain ⟨hday, -, hweekday⟩ := shortDayName_spec (weekday t) (weekday_lt t)
  obtain ⟨hname, -, hdash, -⟩ : (monthName t).isEmpty = false ∧ _ ∧ '-' ∉ monthName t ∧ _ :=
    shortMonthName_spec (t.month - 1) (month_lt t)
  have hcomma : ∀ {name : Text}, (name ++ [',']).isEmpty = false := by simp
  have hgmt : "GMT".toList.isEmpty = false := rfl
  rw [spell, splitSpace_intercalate (isSpace_words t f)]
  cases f with
  | imfFixdate =>
      have hwords : (words t .imfFixdate).filter (fun w ↦ !w.isEmpty) = words t .imfFixdate := by
        simp only [words, List.filter_cons, List.filter_nil, hcomma, isEmpty_zfill, hname,
          isEmpty_timeOfDay, hgmt, Bool.not_false, if_true]
      rw [hwords, words, dropDayName_comma]
      rfl
  | rfc850 =>
      have hdate : (zfill 2 t.day ++
          '-' :: (monthName t ++ '-' :: zfill 2 (t.year % 100))).isEmpty = false :=
        List.isEmpty_eq_false_iff.mpr
          (List.append_ne_nil_of_right_ne_nil _ (List.cons_ne_nil _ _))
      have hwords : (words t .rfc850).filter (fun w ↦ !w.isEmpty) = words t .rfc850 := by
        simp only [words, List.filter_cons, List.filter_nil, hcomma, hdate, isEmpty_timeOfDay, hgmt,
          Bool.not_false, if_true]
      have hsplit : split '-' (zfill 2 t.day ++ '-' :: (monthName t ++
          '-' :: zfill 2 (t.year % 100))) =
            [zfill 2 t.day, monthName t, zfill 2 (t.year % 100)] := by
        rw [split_append ((isNumeral_zfill 2 t.day).notMem (by decide)), split_append hdash,
          split_of_notMem ((isNumeral_zfill 2 (t.year % 100)).notMem (by decide))]
      rw [hwords, words, dropDayName_comma, Email.splitRfc850, hsplit]
      rfl
  | asctime =>
      have hwords : (words t .asctime).filter (fun w ↦ !w.isEmpty) =
          [shortDayNames.getD (weekday t) [], monthName t,
            zfill (if t.day < 10 then 1 else 2) t.day, timeOfDay t, zfill 4 t.year] := by
        rw [words, dayInColumns]
        by_cases hdigit : t.day < 10
        · rw [if_pos hdigit, if_pos hdigit]
          simp only [List.cons_append, List.nil_append, List.filter_cons, List.filter_nil, hday,
            hname, isEmpty_zfill, isEmpty_timeOfDay, Bool.not_false, if_true]
          rfl
        · rw [if_neg hdigit, if_neg hdigit]
          simp only [List.cons_append, List.nil_append, List.filter_cons, List.filter_nil, hday,
            hname, isEmpty_zfill, isEmpty_timeOfDay, Bool.not_false, if_true]
      have hplus : find '+' (zfill 4 t.year) = none :=
        find_of_notMem ((isNumeral_zfill 4 t.year).notMem (by decide))
      have hminus : find '-' (zfill 4 t.year) = none :=
        find_of_notMem ((isNumeral_zfill 4 t.year).notMem (by decide))
      rw [hwords, dropDayName_name hweekday, Email.splitRfc850, Email.splitZone, hplus]
      dsimp only
      rw [hminus]
      rfl
      all_goals nofun

/-! ## Their fields -/

/-- What the parser makes of the digits of a year. -/
def century (year : Nat) : Nat := if year < 100 then if 68 < year then year + 1900 else year + 2000
  else year

theorem lower_numeral {s : Text} (h : IsNumeral s) : lower s = s := by
  refine (List.map_congr_left fun c hc ↦ ?_).trans (List.map_id s)
  have hupper : c.toNat ≤ 57 := (h.digit c hc).2
  refine dif_neg fun hletter ↦ ?_
  have hlower : 65 ≤ c.toNat := UInt32.le_iff_toNat_le.mp hletter.1
  omega

theorem notMem_monthNames {s : Text} (h : IsNumeral s) :
    Email.monthNames.contains s = false := by
  have hletters : ∀ name ∈ Email.monthNames,
      name.any (fun c ↦ decide ('9'.toNat < c.toNat)) = true := by
    decide
  rw [List.contains_eq_mem, decide_eq_false_iff_not]
  intro hmem
  obtain ⟨c, hc, hlt⟩ := List.any_eq_true.mp (hletters s hmem)
  exact absurd (h.digit c hc).2 (not_le.mpr (of_decide_eq_true hlt))

theorem dropTrailingComma_of_notMem {s : Text} (h : ',' ∉ s) : Email.dropTrailingComma s = s :=
  if_neg fun hlast ↦ h (List.mem_of_getLast? hlast)

theorem isDigit_head {w n : Nat} : ∃ c, (zfill w n).head? = some c ∧ Email.isDigit c = true := by
  obtain ⟨c, s, hs⟩ := List.exists_cons_of_ne_nil (isNumeral_zfill w n).ne_nil
  have hdigit := (isNumeral_zfill w n).digit c (hs ▸ List.mem_cons_self)
  have hlower : 48 ≤ c.toNat := hdigit.1
  have hupper : c.toNat < 48 + 10 := Nat.lt_succ_of_le hdigit.2
  refine ⟨c, by rw [hs]; rfl, ?_⟩
  rw [Email.isDigit, digitValue, decimalZeros, List.find?_cons_of_pos (by simp [hlower, hupper])]
  rfl

theorem splitTime_timeOfDay : Email.splitTime (timeOfDay t) =
    some (zfill 2 t.hour, zfill 2 t.minute, zfill 2 t.second) := by
  have hcolon : ∀ {n : Nat}, ':' ∉ zfill 2 n := (isNumeral_zfill 2 _).notMem (by decide)
  rw [Email.splitTime, timeOfDay, split_append hcolon, split_append hcolon,
    split_of_notMem hcolon]

theorem find_timeOfDay : ∃ k, find ':' (timeOfDay t) = some (k + 1) := by
  have hlength : (zfill 2 t.hour).length = 2 :=
    length_zfill (by decide) (t.time_valid.1.trans_lt (by decide))
  have hnone : (zfill 2 t.hour).findIdx? (· == ':') = none :=
    find_of_notMem ((isNumeral_zfill 2 t.hour).notMem (by decide))
  refine ⟨1, ?_⟩
  rw [timeOfDay, find, List.findIdx?_append, hnone, hlength]
  rfl

/-- Whatever the order of its fields, the parser reads them. -/
theorem parsedateTz_of_fields {data tz : Text} {w v d y : Nat} (hw : 0 < w ∧ w ≤ maxStrDigits)
    (hv : 0 < v ∧ v ≤ maxStrDigits) (hd : d < 10 ^ w) (hy : y < 10 ^ v)
    (h : (Email.splitZone (Email.splitRfc850 (Email.dropDayName (splitSpace data)))).take 5 =
        [zfill w d, monthName t, zfill v y, timeOfDay t, tz] ∨
      (Email.splitZone (Email.splitRfc850 (Email.dropDayName (splitSpace data)))).take 5 =
        [monthName t, zfill w d, timeOfDay t, zfill v y, tz]) :
    Email.parsedateTz data = some ⟨century y, t.month, d, t.hour, t.minute, t.second,
      Email.zoneOffset tz⟩ := by
  obtain ⟨hname, -, -, hcontains, hindex⟩ : (monthName t).isEmpty = false ∧ _ ∧ _ ∧
      Email.monthNames.contains (lower (monthName t)) = true ∧
      Email.monthNames.findIdx? (· == lower (monthName t)) = some (t.month - 1) :=
    shortMonthName_spec (t.month - 1) (month_lt t)
  have hmonth := t.date_valid.2.1
  have hcomma : ∀ {w n : Nat}, Email.dropTrailingComma (zfill w n) = zfill w n :=
    dropTrailingComma_of_notMem ((isNumeral_zfill _ _).notMem (by decide))
  have hclock : Email.dropTrailingComma (timeOfDay t) = timeOfDay t := by
    refine dropTrailingComma_of_notMem fun hmem ↦ ?_
    have hnot : ∀ {n : Nat}, ',' ∉ zfill 2 n := (isNumeral_zfill 2 _).notMem (by decide)
    simp [timeOfDay, hnot] at hmem
  have hyear : find ':' (zfill v y) = none :=
    find_of_notMem ((isNumeral_zfill v y).notMem (by decide))
  obtain ⟨k, htime⟩ := find_timeOfDay t
  obtain ⟨c, hhead, hdigit⟩ := isDigit_head (w := v) (n := y)
  obtain ⟨hhour, hminute, hsecond, -⟩ := t.time_valid
  have hread : ∀ n, n ≤ 59 → Text.toInt (zfill 2 n) = .ok n := fun n hn ↦
    toInt_zfill (by decide) (by decide) (by omega)
  have hindex' : (if 12 < t.month - 1 + 1 then t.month - 1 + 1 - 12 else t.month - 1 + 1) =
      t.month := by
    rw [if_neg (by omega)]
    omega
  have hcentury : (if (y : Int) < 100 then if 68 < (y : Int) then (y : Int) + 1900 else y + 2000
      else y) = century y := by
    unfold century
    split_ifs <;> omega
  unfold Email.parsedateTz
  rcases h with h | h
  all_goals
    rw [h]
    simp only [isEmpty_zfill, hname, isEmpty_timeOfDay, Bool.or_self, hcontains, hindex, hyear,
      htime, hcomma, hclock, hhead, hdigit, splitTime_timeOfDay, notMem_monthNames
        (isNumeral_zfill w d), Option.bind_eq_bind, Option.bind_some, if_true, Bool.false_eq_true,
      if_false, toInt_zfill hw.1 hw.2 hd, toInt_zfill hv.1 hv.2 hy, hread t.hour (by omega),
      hread t.minute hminute, hread t.second hsecond, lower_numeral (isNumeral_zfill w d),
      Except.toOption, hindex', hcentury]

/-- The year that is printed, and the time zone. -/
def printed (year : Nat) : HttpDate → Nat × Option Int
  | .imfFixdate => (year, some 0)
  | .rfc850 => (year % 100, some 0)
  | .asctime => (year, none)

theorem parsedateTz_spell (f : HttpDate) : Email.parsedateTz (spell t f) =
    some ⟨century (printed t.year f).1, t.month, t.day, t.hour, t.minute, t.second,
      (printed t.year f).2⟩ := by
  have hday : t.day < 10 ^ 2 := by
    have hle := t.date_valid.2.2.2.trans (daysInMonth_le t.year t.month)
    omega
  have hyear : t.year < 10 ^ 4 := Nat.lt_succ_of_le t.date_valid.1.2
  have hfields := splitZone_spell t f
  cases f with
  | imfFixdate =>
      exact parsedateTz_of_fields t (by decide) (by decide) hday hyear (.inl hfields)
  | rfc850 =>
      exact parsedateTz_of_fields t (by decide) (by decide) hday (Nat.mod_lt _ (by decide))
        (.inl hfields)
  | asctime =>
      refine parsedateTz_of_fields t ?_ (by decide) ?_ hyear (.inr hfields)
      · split <;> decide
      · split
        · rw [pow_one]
          assumption
        · exact hday

theorem century_printed {year : Nat} {f : HttpDate} (h : Covers year f) :
    century (printed year f).1 = year := by
  cases f with
  | rfc850 =>
      have hcovers : 1969 ≤ year ∧ year ≤ 2068 := h
      show century (year % 100) = year
      unfold century
      split_ifs <;> omega
  | imfFixdate => exact if_neg (not_lt.mpr h)
  | asctime => exact if_neg (not_lt.mpr h)

end HttpDate

/-! ## Their instants -/

/-- The instant without its microseconds, which no date of HTTP shows. -/
def Datetime.truncated (t : Datetime) : Datetime where
  micros := t.micros - t.micros % microsPerSecond
  nonneg := by
    have hnonneg := t.nonneg
    simp only [microsPerSecond]
    omega
  le_max := by
    have hmax := t.le_max
    simp only [microsPerSecond]
    omega

/-- The fields of an instant in UTC make it up again. -/
theorem Datetime.ofFields_toUtc (t : Datetime) :
    ofFields t.toUtc.year t.toUtc.month t.toUtc.day t.toUtc.hour t.toUtc.minute t.toUtc.second =
      .ok t.truncated := by
  obtain ⟨⟨hyear, hyear'⟩, ⟨hmonth, hmonth'⟩, hday, hday'⟩ := t.toUtc.date_valid
  obtain ⟨hhour, hminute, hsecond, -⟩ := t.toUtc.time_valid
  have hday'' := hday'.trans (PyDatetime.daysInMonth_le t.toUtc.year t.toUtc.month)
  obtain ⟨offset, hoffset, hwall⟩ := t.denotes_toUtc
  obtain rfl : 0 = offset := Option.some.inj hoffset
  have hmicro : (t.toUtc.microsecond : Int) = t.micros % microsPerSecond := by
    show ((t.micros % microsPerDay % 1000000).toNat : Int) = t.micros % microsPerSecond
    simp only [microsPerDay, microsPerSecond]
    omega
  rw [PyDatetime.wallMicros, PyDatetime.ymdToOrd, sub_zero] at hwall
  have hsmall : ∀ n : Int, -cIntMax - 1 ≤ n → n ≤ cIntMax →
      decide (cIntMax < n) = false ∧ decide (n < -cIntMax - 1) = false := fun n hlower hupper ↦
    ⟨decide_eq_false (not_lt.mpr hupper), decide_eq_false (not_lt.mpr hlower)⟩
  have hany : ([(t.toUtc.year : Int), t.toUtc.month, t.toUtc.day, t.toUtc.hour, t.toUtc.minute,
      t.toUtc.second].any fun n ↦ cIntMax < n || n < -cIntMax - 1) = false := by
    simp only [List.any_cons, List.any_nil, Bool.or_false, Bool.or_eq_false_iff]
    refine ⟨hsmall _ ?_ ?_, hsmall _ ?_ ?_, hsmall _ ?_ ?_, hsmall _ ?_ ?_, hsmall _ ?_ ?_,
      hsmall _ ?_ ?_⟩
    all_goals
      simp only [cIntMax]
      omega
  unfold ofFields
  rw [hany, if_neg Bool.false_ne_true, if_pos (by simp only [Int.toNat_natCast]; omega)]
  refine Datetime.ofMicros_eq_ok_iff.mpr ?_
  show t.micros - t.micros % microsPerSecond = _
  rw [← hmicro, ← hwall]
  simp only [Int.toNat_natCast]
  push_cast
  ring

/-- Each spelling of an instant is read as this instant, without its microseconds. -/
theorem HttpDate.parsedateToDatetime_spell {t : Datetime} {f : HttpDate}
    (h : f.Covers t.toUtc.year) :
    ∃ p, Email.parsedateToDatetime (spell t.toUtc f) = .ok p ∧ p.clock = t.truncated ∧
      p.utcoffset.elim 0 Timedelta.micros = 0 := by
  have hparsed := parsedateTz_spell t.toUtc f
  rw [century_printed h] at hparsed
  have hzero : Email.checkOffset ⟨0, by decide, by decide⟩ = .ok ⟨0, by decide, by decide⟩ := rfl
  cases f with
  | asctime =>
      refine ⟨⟨t.truncated, none⟩, ?_, rfl, rfl⟩
      rw [Email.parsedateToDatetime, hparsed]
      dsimp only [printed]
      rw [Datetime.ofFields_toUtc]
      rfl
  | imfFixdate =>
      refine ⟨⟨t.truncated, some ⟨0, by decide, by decide⟩⟩, ?_, rfl, rfl⟩
      rw [Email.parsedateToDatetime, hparsed]
      dsimp only [printed]
      rw [Datetime.ofFields_toUtc]
      rfl
  | rfc850 =>
      refine ⟨⟨t.truncated, some ⟨0, by decide, by decide⟩⟩, ?_, rfl, rfl⟩
      rw [Email.parsedateToDatetime, hparsed]
      dsimp only [printed]
      rw [Datetime.ofFields_toUtc]
      rfl

end FeedgateFetcher.Python
