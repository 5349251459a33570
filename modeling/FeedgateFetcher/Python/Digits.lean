import Mathlib.Data.Nat.Digits.Defs
import FeedgateFetcher.Python.Text

/-!
# Numerals

The digits that a number is printed with, on their own and padded to a width, and the
number they are read back as.
-/

namespace FeedgateFetcher.Python.Text

variable {b n w : Nat}

/-! ## Padding -/

/-- The digits of a number, with zeros before them up to a width. -/
def padded (b w n : Nat) : Text :=
  List.replicate (w - (Nat.toDigits b n).length) '0' ++ Nat.toDigits b n

theorem padded_one (h : n < b) : padded b 1 n = [n.digitChar] := by
  rw [padded, Nat.toDigits_of_lt_base h]
  rfl

/-- The last digit of a padded numeral, and the numeral before it. -/
theorem padded_succ (hb : 1 < b) (hw : 0 < w) :
    padded b (w + 1) n = padded b w (n / b) ++ [(n % b).digitChar] := by
  rcases Nat.lt_or_ge n b with h | h
  · obtain ⟨w, rfl⟩ := Nat.exists_eq_add_of_lt hw
    rw [padded, padded, Nat.div_eq_of_lt h, Nat.mod_eq_of_lt h, Nat.toDigits_zero,
      Nat.toDigits_of_lt_base h]
    simp only [List.length_singleton, Nat.add_sub_cancel, Nat.zero_add]
    rw [List.replicate_succ']
  · rw [padded, padded, Nat.toDigits_of_base_le hb h, List.length_append, List.length_singleton,
      Nat.add_sub_add_right, List.append_assoc]

theorem padded_two (hb : 1 < b) (h : n < b * b) :
    padded b 2 n = [(n / b).digitChar, (n % b).digitChar] := by
  rw [padded_succ hb Nat.one_pos, padded_one (Nat.div_lt_of_lt_mul h)]
  rfl

theorem padded_four (hb : 1 < b) (h : n < b * b * (b * b)) :
    padded b 4 n = [(n / b / b / b).digitChar, (n / b / b % b).digitChar, (n / b % b).digitChar,
      (n % b).digitChar] := by
  have hn : n / b / b < b * b := by
    rw [Nat.div_div_eq_div_mul]
    exact Nat.div_lt_of_lt_mul h
  rw [padded_succ hb (by decide), padded_succ hb (by decide), padded_two hb hn]
  rfl

/-! ## Decimals -/

theorem toNat_mem_toDigits {c : Char} (h : c ∈ Nat.toDigits 10 n) :
    '0'.toNat ≤ c.toNat ∧ c.toNat ≤ '9'.toNat := by
  have hdigit := Nat.isDigit_of_mem_toDigits (by decide) (by decide) h
  simpa [Char.isDigit, UInt32.le_iff_toNat_le] using hdigit

/-- A positive number is printed without a leading zero. -/
theorem toDigits_head (h : 0 < n) : ∃ c s, Nat.toDigits 10 n = c :: s ∧ c ≠ '0' := by
  induction n using Nat.strong_induction_on with
  | h n ih =>
    rcases Nat.lt_or_ge n 10 with hn | hn
    · have hdigit : ∀ m : Fin 10, 0 < m.val → m.val.digitChar ≠ '0' := by decide
      exact ⟨n.digitChar, [], Nat.toDigits_of_lt_base hn, hdigit ⟨n, hn⟩ h⟩
    · obtain ⟨c, s, hs, hc⟩ := ih (n / 10) (by omega) (by omega)
      refine ⟨c, s ++ [(n % 10).digitChar], ?_, hc⟩
      rw [Nat.toDigits_of_base_le (by decide) hn, hs]
      rfl

theorem ofDigits_toDigits :
    ofDigits ((Nat.toDigits 10 n).map fun c ↦ c.toNat - '0'.toNat) = n := by
  have h := @Nat.ofDigitChars_ten_toDigits n
  rw [Nat.ofDigitChars_eq_foldl] at h
  rw [ofDigits, List.foldl_map]
  calc (Nat.toDigits 10 n).foldl (fun n c ↦ n * 10 + (c.toNat - '0'.toNat)) 0
      = (Nat.toDigits 10 n).foldl (fun n c ↦ 10 * n + (c.toNat - '0'.toNat)) 0 := by
        simp only [Nat.mul_comm]
    _ = n := h

end FeedgateFetcher.Python.Text
