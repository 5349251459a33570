import FeedgateFetcher.Python.Time

/-!
# `str` and `int`

The string methods and the `int` constructor of Python, on lists of code points.
Case folding is exact where its result is in ASCII, as are the constants that the
folded texts are compared with, but for one code point: `lower` leaves the Kelvin
sign alone, which folds into a `k`, and none of these constants has one.  Letters
beyond ASCII that fold into each other are left alone.
-/

namespace FeedgateFetcher.Python

abbrev Text := List Char

namespace Text

/-- `str.isspace` on one code point. -/
def isSpace (c : Char) : Bool :=
  let n := c.toNat
  (9 ≤ n && n ≤ 13) || (28 ≤ n && n ≤ 32) || n == 0x85 || n == 0xA0 || n == 0x1680 ||
    (0x2000 ≤ n && n ≤ 0x200A) || n == 0x2028 || n == 0x2029 || n == 0x202F || n == 0x205F ||
    n == 0x3000

def lstripWhere (p : Char → Bool) (s : Text) : Text := s.dropWhile p

def rstripWhere (p : Char → Bool) (s : Text) : Text := (s.reverse.dropWhile p).reverse

def stripWhere (p : Char → Bool) (s : Text) : Text := rstripWhere p (lstripWhere p s)

def strip (s : Text) : Text := stripWhere isSpace s

def lower (s : Text) : Text := s.map Char.toLower

/-- The upper case of a code point: the letters beyond ASCII are those whose upper case is in it. -/
def upperChar (c : Char) : Text :=
  match c.toNat with
  | 0xDF => ['S', 'S']
  | 0x131 => ['I']
  | 0x17F => ['S']
  | 0xFB00 => ['F', 'F']
  | 0xFB01 => ['F', 'I']
  | 0xFB02 => ['F', 'L']
  | 0xFB03 => ['F', 'F', 'I']
  | 0xFB04 => ['F', 'F', 'L']
  | 0xFB05 => ['S', 'T']
  | 0xFB06 => ['S', 'T']
  | _ => [c.toUpper]

def upper (s : Text) : Text := s.flatMap upperChar

def startswith (p s : Text) : Bool := p.isPrefixOf s

/-- `s.split(sep)` for a one-character separator. -/
def split (sep : Char) : Text → List Text
  | [] => [[]]
  | c :: s =>
    if c = sep then [] :: split sep s
    else match split sep s with
      | [] => [[c]]
      | w :: ws => (c :: w) :: ws

/-- `s.split()`: the maximal runs of non-space characters. -/
def splitSpace (s : Text) : List Text := (s.splitOnP isSpace).filter fun w ↦ !w.isEmpty

/-- `s.find(c)`. -/
def find (c : Char) (s : Text) : Option Nat := s.findIdx? (· == c)

/-- `s.partition(c)`, with the separator replaced by whether it was found. -/
def partition (sep : Char) : Text → Text × Bool × Text
  | [] => ([], false, [])
  | c :: s =>
    if c = sep then ([], true, s)
    else let (a, found, b) := partition sep s; (c :: a, found, b)

/-- `s.rpartition(c)[2]`. -/
def afterLast (sep : Char) (s : Text) : Text := (s.reverse.takeWhile (· != sep)).reverse

/-- `xs[:n]`. -/
def sliceTo {α : Type*} (n : Int) (xs : List α) : List α :=
  if 0 ≤ n then xs.take n.toNat else xs.take (xs.length - (-n).toNat)

/-! ## Pieces of a string -/

section

variable {sep : Char} {p : Char → Bool} {a b s : Text}

theorem rstripWhere_prefix (p : Char → Bool) (s : Text) : rstripWhere p s <+: s := by
  unfold rstripWhere
  rw [← List.reverse_suffix, List.reverse_reverse]
  exact List.dropWhile_suffix p

theorem getLast?_rstripWhere (p : Char → Bool) (s : Text) :
    ∀ c ∈ (rstripWhere p s).getLast?, ¬p c := by
  intro c hc
  unfold rstripWhere at hc
  rw [List.getLast?_reverse] at hc
  have hstop := List.head?_dropWhile_not p s.reverse
  rw [Option.mem_def.mp hc] at hstop
  simpa using hstop

theorem rstripWhere_eq_self (h : ∀ c ∈ s.getLast?, ¬p c) : rstripWhere p s = s := by
  unfold rstripWhere
  rw [← List.head?_reverse] at h
  cases hs : s.reverse with
  | nil => simpa using hs.symm
  | cons c t =>
      rw [hs] at h
      rw [List.dropWhile_cons_of_neg (h c rfl), ← hs, List.reverse_reverse]

theorem rstripWhere_append (hb : ∀ c ∈ b, p c) (ha : ∀ c ∈ a.getLast?, ¬p c) :
    rstripWhere p (a ++ b) = a := by
  have hdrop : (b.reverse ++ a.reverse).dropWhile p = a.reverse.dropWhile p :=
    List.dropWhile_append_of_pos fun c hc ↦ hb c (List.mem_reverse.mp hc)
  rw [rstripWhere, List.reverse_append, hdrop]
  exact rstripWhere_eq_self ha

theorem stripWhere_eq_self (ha : ∀ c ∈ s.head?, ¬p c) (hb : ∀ c ∈ s.getLast?, ¬p c) :
    stripWhere p s = s := by
  have hleft : lstripWhere p s = s := by
    cases s with
    | nil => rfl
    | cons c s => exact List.dropWhile_cons_of_neg (ha c rfl)
  rw [stripWhere, hleft]
  exact rstripWhere_eq_self hb

theorem partition_of_notMem (h : sep ∉ s) : partition sep s = (s, false, []) := by
  induction s with
  | nil => rfl
  | cons c s ih =>
      rw [List.mem_cons, not_or] at h
      rw [partition, if_neg (Ne.symm h.1), ih h.2]

theorem partition_append (h : sep ∉ a) : partition sep (a ++ sep :: b) = (a, true, b) := by
  induction a with
  | nil => simp [partition]
  | cons c a ih =>
      rw [List.mem_cons, not_or] at h
      rw [List.cons_append, partition, if_neg (Ne.symm h.1), ih h.2]

theorem notMem_partition_fst (sep : Char) (s : Text) : sep ∉ (partition sep s).1 := by
  induction s with
  | nil => simp [partition]
  | cons c s ih =>
      rw [partition]
      split
      case isTrue => simp
      case isFalse hne => simpa [Ne.symm hne] using ih

theorem partition_fst_prefix (sep : Char) (s : Text) : (partition sep s).1 <+: s := by
  induction s with
  | nil => simp [partition]
  | cons c s ih =>
      rw [partition]
      split
      case isTrue => simp
      case isFalse => simpa using ih

theorem partition_snd_suffix (sep : Char) (s : Text) : (partition sep s).2.2 <:+ s := by
  induction s with
  | nil => simp [partition]
  | cons c s ih =>
      rw [partition]
      split
      case isTrue => simp
      case isFalse => exact ih.trans (List.suffix_cons c s)

theorem mem_split {c : Char} (h : c ∈ s) : c = sep ∨ ∃ w ∈ split sep s, c ∈ w := by
  induction s with
  | nil => simp at h
  | cons d s ih =>
      rw [split]
      by_cases hd : d = sep
      · rw [if_pos hd]
        rcases List.mem_cons.mp h with rfl | h
        · exact .inl hd
        · rcases ih h with hsep | ⟨w, hw, hc⟩
          · exact .inl hsep
          · exact .inr ⟨w, List.mem_cons_of_mem _ hw, hc⟩
      · rw [if_neg hd]
        cases hsplit : split sep s with
        | nil =>
            rw [hsplit] at ih
            rcases List.mem_cons.mp h with rfl | h
            · exact .inr ⟨[c], by simp⟩
            · exact (ih h).imp_right (by simp)
        | cons w ws =>
            rw [hsplit] at ih
            rcases List.mem_cons.mp h with rfl | h
            · exact .inr ⟨c :: w, by simp⟩
            · rcases ih h with hsep | ⟨w', hw, hc⟩
              · exact .inl hsep
              · rcases List.mem_cons.mp hw with rfl | hw
                · exact .inr ⟨d :: w', by simp, List.mem_cons_of_mem _ hc⟩
                · exact .inr ⟨w', by simp [hw], hc⟩

theorem split_of_notMem (h : sep ∉ s) : split sep s = [s] := by
  induction s with
  | nil => rfl
  | cons c s ih =>
      rw [List.mem_cons, not_or] at h
      rw [split, if_neg (Ne.symm h.1), ih h.2]

end

/-! ## `int` -/

/-- The code points of the digit zero in every script with decimal digits. -/
def decimalZeros : List Nat :=
  [0x30, 0x660, 0x6F0, 0x7C0, 0x966, 0x9E6, 0xA66, 0xAE6, 0xB66, 0xBE6, 0xC66, 0xCE6, 0xD66,
    0xDE6, 0xE50, 0xED0, 0xF20, 0x1040, 0x1090, 0x17E0, 0x1810, 0x1946, 0x19D0, 0x1A80, 0x1A90,
    0x1B50, 0x1BB0, 0x1C40, 0x1C50, 0xA620, 0xA8D0, 0xA900, 0xA9D0, 0xA9F0, 0xAA50, 0xABF0,
    0xFF10, 0x104A0, 0x10D30, 0x11066, 0x110F0, 0x11136, 0x111D0, 0x112F0, 0x11450, 0x114D0,
    0x11650, 0x116C0, 0x11730, 0x118E0, 0x11950, 0x11C50, 0x11D50, 0x11DA0, 0x11F50, 0x16A60,
    0x16AC0, 0x16B50, 0x1D7CE, 0x1D7D8, 0x1D7E2, 0x1D7EC, 0x1D7F6, 0x1E140, 0x1E2F0, 0x1E4F0,
    0x1E950, 0x1FBF0]

/-- The value of a decimal digit of any script. -/
def digitValue (c : Char) : Option Nat :=
  (decimalZeros.find? fun z ↦ z ≤ c.toNat && c.toNat < z + 10).map fun z ↦ c.toNat - z

/-- Digits with single underscores between them, as their values; `none` when
anything else is met or the text does not start and end with a digit. -/
def digits : Text → Option (List Nat)
  | [] => none
  | [c] => (digitValue c).map fun d ↦ [d]
  | c :: '_' :: s => do
    let d ← digitValue c
    let ds ← digits s
    pure (d :: ds)
  | c :: s => do
    let d ← digitValue c
    let ds ← digits s
    pure (d :: ds)

def ofDigits (ds : List Nat) : Nat := ds.foldl (fun n d ↦ n * 10 + d) 0

/-- `sys.get_int_max_str_digits()`. -/
def maxStrDigits : Nat := 4300

def toNat (s : Text) : Except PyError Nat :=
  match digits s with
  | some ds => if ds.length ≤ maxStrDigits then .ok (ofDigits ds) else .error .valueError
  | none => .error .valueError

/-- The spaces around the digits of an `int`: four control characters are none of them, unlike for
`str.strip`. -/
def isIntSpace (c : Char) : Bool := isSpace c && !(28 ≤ c.toNat && c.toNat ≤ 31)

theorem isIntSpace_of_isSpace {c : Char} (h : isSpace c = false) : isIntSpace c = false := by
  rw [isIntSpace, h, Bool.false_and]

/-- `int(s)`. -/
def toInt (s : Text) : Except PyError Int :=
  match stripWhere isIntSpace s with
  | '-' :: t => Except.map (fun n : Nat ↦ -(n : Int)) (toNat t)
  | '+' :: t => Except.map Int.ofNat (toNat t)
  | t => Except.map Int.ofNat (toNat t)

example : toInt " -1_000".toList = .ok (-1000) := by decide

example : toInt "\x1f5".toList = .error .valueError := by decide

theorem toNat_error {s : Text} {e : PyError} (h : toNat s = .error e) : e = .valueError := by
  unfold toNat at h
  split at h
  · split at h <;> cases h
    rfl
  · cases h; rfl

/-- `int` on a string raises nothing but `ValueError`. -/
theorem toInt_error {s : Text} {e : PyError} (h : toInt s = .error e) : e = .valueError := by
  have key : ∀ (f : Nat → Int) (t : Text), Except.map f (toNat t) = .error e → e = .valueError := by
    intro f t ht
    cases hn : toNat t with
    | ok n => rw [hn] at ht; cases ht
    | error e' =>
        rw [hn] at ht
        cases ht
        exact toNat_error hn
  unfold toInt at h
  split at h <;> exact key _ _ h

end Text

end FeedgateFetcher.Python
