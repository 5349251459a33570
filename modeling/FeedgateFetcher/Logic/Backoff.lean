import Mathlib.Algebra.Order.Ring.Basic
import Mathlib.Data.List.DropRight
import Mathlib.Tactic.Common

/-!
# Loops that back off

A loop does something, waits, and does it again.  How long it waits depends on how
often in a row it has failed: the counter it keeps is the length of its current
streak, and a delay that is a function of the counter can be compared along the run.
-/

universe u v

namespace FeedgateFetcher.Logic

/-! ## Streaks -/

section

variable {α : Type u} {failed : α → Bool} {os hs : List α} {o : α} {i : Nat}

/-- The number of failures that a history ends in. -/
def streak (failed : α → Bool) (hs : List α) : Nat := (hs.rtakeWhile failed).length

/-- The number of failures in a row up to one place of a history. -/
def streakAt (failed : α → Bool) (os : List α) (i : Nat) : Nat := streak failed (os.take (i + 1))

/-- The counter of a loop after each of its rounds. -/
def counters (failed : α → Bool) : Nat → List α → List Nat
  | _, [] => []
  | c, o :: os =>
    let c' := if failed o then c + 1 else 0
    c' :: counters failed c' os

@[simp] theorem streak_nil : streak failed [] = 0 := by simp [streak]

theorem streak_concat :
    streak failed (hs ++ [o]) = if failed o then streak failed hs + 1 else 0 := by
  unfold streak
  rw [List.rtakeWhile_concat]
  split <;> simp

theorem streak_eq_zero (h : ∀ o ∈ hs, ¬failed o) : streak failed hs = 0 := by
  induction hs using List.reverseRecOn with
  | nil => exact streak_nil
  | append_singleton hs o ih => rw [streak_concat, if_neg (h o (by simp))]

/-- The first failure of a history is a streak of one. -/
theorem exists_streakAt_eq_one (h : ∃ o ∈ os, failed o) :
    ∃ i < os.length, streakAt failed os i = 1 := by
  induction os using List.reverseRecOn with
  | nil => simp at h
  | append_singleton os o ih =>
      by_cases hos : ∃ o ∈ os, failed o
      · obtain ⟨i, hi, hone⟩ := ih hos
        refine ⟨i, by simp; omega, ?_⟩
        rw [← hone, streakAt, streakAt, List.take_append_of_le_length (by omega)]
      · obtain ⟨p, hp, hfailed⟩ := h
        have ho : failed o := by
          rcases List.mem_append.mp hp with hp | hp
          · exact absurd ⟨p, hp, hfailed⟩ hos
          · rwa [List.mem_singleton.mp hp] at hfailed
        have hzero : streak failed os = 0 :=
          streak_eq_zero fun p hp hfailed ↦ hos ⟨p, hp, hfailed⟩
        refine ⟨os.length, by simp, ?_⟩
        rw [streakAt, List.take_of_length_le (by simp), streak_concat, if_pos ho, hzero]

@[simp] theorem counters_length (c : Nat) : (counters failed c os).length = os.length := by
  induction os generalizing c with
  | nil => rfl
  | cons o os ih => simp [counters, ih]

theorem counters_getElem? (hi : i < os.length) :
    (counters failed (streak failed hs) os)[i]? =
      some (streak failed (hs ++ os.take (i + 1))) := by
  induction os generalizing hs i with
  | nil => simp at hi
  | cons o os ih =>
      rw [counters, ← streak_concat]
      cases i with
      | zero => simp
      | succ i =>
          have hi : i < os.length := by simpa using hi
          simp only [List.getElem?_cons_succ, ih hi, List.append_assoc, List.singleton_append,
            List.take_succ_cons]

/-- The counter of a loop that starts at zero is the length of the current streak. -/
theorem counters_zero_getElem? (hi : i < os.length) :
    (counters failed 0 os)[i]? = some (streakAt failed os i) := by
  have h : (counters failed (streak failed []) os)[i]? = some (streakAt failed os i) :=
    counters_getElem? hi
  rwa [streak_nil] at h

/-- The delays of a loop that keeps a counter and waits accordingly. -/
theorem counters_map_getElem? {β : Type v} (delay : Nat → β) {d : β}
    (h : ((counters failed 0 os).map delay)[i]? = some d) :
    i < os.length ∧ d = delay (streakAt failed os i) := by
  have hi : i < os.length := by
    have := (List.getElem?_eq_some_iff.mp h).1
    simpa using this
  rw [List.getElem?_map, counters_zero_getElem? hi] at h
  exact ⟨hi, (Option.some.inj h).symm⟩

end

/-! ## Delays -/

section

variable {α : Type u} {K : Type v} [CommRing K] [LinearOrder K]

/-- The delay after a number of failures in a row: the base, then doubled by every further
failure, up to a number of doublings and a cap. -/
def clipped (base cap : K) (doublings n : Nat) : K :=
  if 0 < n then min (base * 2 ^ min (n - 1) doublings) cap else base

/-- The delays of a history of rounds do not fall while the failures go on, are back at the base
after a success, and stay below a ceiling. -/
structure SlowsDown (failed : α → Bool) (base ceiling : K) (os : List α) (delays : List K) :
    Prop where
  length_eq : delays.length = os.length
  first_failure : ∀ i d, delays[i]? = some d → streakAt failed os i = 1 → base ≤ d
  next_failure : ∀ i j d e, delays[i]? = some d → delays[j]? = some e →
    streakAt failed os j = streakAt failed os i + 1 → d ≤ e
  success : ∀ i d, delays[i]? = some d → streakAt failed os i = 0 → d = base
  bounded : ∀ d ∈ delays, d ≤ ceiling

variable {base cap : K} {doublings n : Nat} {failed : α → Bool} {os : List α}

@[simp] theorem clipped_zero : clipped base cap doublings 0 = base := rfl

@[simp] theorem clipped_one : clipped base cap doublings 1 = min base cap := by simp [clipped]

theorem clipped_le : clipped base cap doublings n ≤ max base cap := by
  unfold clipped
  split
  · exact (min_le_right _ _).trans (le_max_right _ _)
  · exact le_max_left _ _

variable [IsStrictOrderedRing K]

/-- After the first failure the delay only grows. -/
theorem clipped_le_succ (hbase : 0 ≤ base) (hn : 0 < n) :
    clipped base cap doublings n ≤ clipped base cap doublings (n + 1) := by
  have hexp : min (n - 1) doublings ≤ min (n + 1 - 1) doublings := by omega
  have hpow : (2 : K) ^ min (n - 1) doublings ≤ 2 ^ min (n + 1 - 1) doublings :=
    pow_le_pow_right₀ one_le_two hexp
  unfold clipped
  rw [if_pos hn, if_pos n.succ_pos]
  exact min_le_min_right cap (mul_le_mul_of_nonneg_left hpow hbase)

/-- The first failure is the one that can shorten the delay: it does when the cap is below the
base. -/
theorem slowsDown_clipped_iff (hbase : 0 ≤ base) :
    SlowsDown failed base (max base cap) os
        ((counters failed 0 os).map (clipped base cap doublings)) ↔
      base ≤ cap ∨ ∀ o ∈ os, ¬failed o := by
  constructor
  · intro h
    by_contra! hcon
    obtain ⟨hcap, hfailed⟩ := hcon
    obtain ⟨i, hi, hone⟩ := exists_streakAt_eq_one hfailed
    have hdelay : ((counters failed 0 os).map (clipped base cap doublings))[i]? =
        some (min base cap) := by
      rw [List.getElem?_map, counters_zero_getElem? hi, hone]
      exact congrArg some clipped_one
    have hle := h.first_failure i _ hdelay hone
    exact absurd (hle.trans (min_le_right _ _)) (not_le.mpr hcap)
  · intro h
    have hgrow : ∀ i < os.length, streakAt failed os i ≠ 0 → base ≤ cap := by
      intro i _ hne
      refine h.resolve_right fun hnone ↦ hne (streak_eq_zero fun o ho ↦ hnone o ?_)
      exact List.mem_of_mem_take ho
    constructor
    case length_eq => simp
    case first_failure =>
      intro i d hd hone
      obtain ⟨hi, rfl⟩ := counters_map_getElem? _ hd
      rw [hone, clipped_one]
      exact le_min le_rfl (hgrow i hi (by omega))
    case next_failure =>
      intro i j d e hd he hstreak
      obtain ⟨_, rfl⟩ := counters_map_getElem? _ hd
      obtain ⟨hj, rfl⟩ := counters_map_getElem? _ he
      rw [hstreak]
      rcases Nat.eq_zero_or_pos (streakAt failed os i) with hzero | hpos
      · rw [hzero, clipped_zero, Nat.zero_add, clipped_one]
        exact le_min le_rfl (hgrow j hj (by omega))
      · exact clipped_le_succ hbase hpos
    case success =>
      intro i d hd hzero
      obtain ⟨_, rfl⟩ := counters_map_getElem? _ hd
      rw [hzero, clipped_zero]
    case bounded =>
      intro d hd
      obtain ⟨n, _, rfl⟩ := List.mem_map.mp hd
      exact clipped_le

end

end FeedgateFetcher.Logic
