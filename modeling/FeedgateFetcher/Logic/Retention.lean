import Mathlib.Algebra.Order.BigOperators.Group.List
import Mathlib.Algebra.Order.Ring.Nat
import FeedgateFetcher.Logic.Ranking
import FeedgateFetcher.Logic.Transition

/-!
# Retention

A table in which every row belongs to a class keeps the rows inside a window and
the first rows of each class.  What is kept does not depend on the surplus, so the
surplus can be deleted in any portions.
-/

universe u v w

namespace FeedgateFetcher.Logic.Table

variable {ρ : Type u} {κ : Type v} {γ : Type w} [DecidableEq ρ] [LinearOrder κ] [DecidableEq γ]

/-- A rule of retention: the window, the classes, the ranking and the number of first rows. -/
structure Retention (ρ : Type u) (κ : Type v) (γ : Type w) where
  window : ρ → Bool
  cls : ρ → γ
  key : ρ → κ
  first : Nat

namespace Retention

variable (rule : Retention ρ κ γ)

/-- The rows of the class of a row. -/
def peers (rows : List ρ) (r : ρ) : List ρ := rows.filter fun s ↦ rule.cls s = rule.cls r

/-- The row is inside the window or among the first of its class. -/
def Keeps (rows : List ρ) (r : ρ) : Prop :=
  rule.window r = true ∨ r ∈ leading rule.key rule.first (rule.peers rows r)

instance (rows : List ρ) (r : ρ) : Decidable (rule.Keeps rows r) :=
  inferInstanceAs (Decidable (_ ∨ _))

/-- The rows to keep. -/
def kept (rows : List ρ) : List ρ := rows.filter fun r ↦ rule.Keeps rows r

/-- The rows to delete. -/
def surplus (rows : List ρ) : List ρ := rows.filter fun r ↦ ¬rule.Keeps rows r

variable {rule} {rows rows' : List ρ} {r : ρ} {p : ρ → Bool}

theorem mem_kept : r ∈ rule.kept rows ↔ r ∈ rows ∧ rule.Keeps rows r := by
  rw [kept, List.mem_filter, decide_eq_true_iff]

theorem mem_surplus : r ∈ rule.surplus rows ↔ r ∈ rows ∧ ¬rule.Keeps rows r := by
  rw [surplus, List.mem_filter, decide_eq_true_iff]

/-- The first rows of a class are kept. -/
theorem mem_kept_of_mem_leading {s : ρ}
    (h : s ∈ leading rule.key rule.first (rule.peers rows r)) : s ∈ rule.kept rows := by
  have hs := List.mem_filter.mp (mem_ranked.mp (List.mem_of_mem_take h))
  have hclass : rule.cls s = rule.cls r := of_decide_eq_true hs.2
  have hpeers : rule.peers rows s = rule.peers rows r := by
    unfold peers
    rw [hclass]
  exact mem_kept.mpr ⟨hs.1, .inr (hpeers ▸ h)⟩

/-- Deleting surplus rows does not change which rows are kept. -/
theorem keeps_filter_iff (h : Keyed rule.key rows) (hp : ∀ r ∈ rule.kept rows, p r = true)
    (r : ρ) : rule.Keeps (rows.filter p) r ↔ rule.Keeps rows r := by
  have hkeyed : Keyed rule.key (rule.peers rows r) := h.sublist List.filter_sublist
  have hpeers : rule.peers (rows.filter p) r = (rule.peers rows r).filter p :=
    List.filter_comm _ _ _
  have hleading : leading rule.key rule.first (rule.peers (rows.filter p) r) =
      leading rule.key rule.first (rule.peers rows r) := by
    rw [hpeers]
    exact hkeyed.leading_filter fun s hs ↦ hp s (mem_kept_of_mem_leading hs)
  rw [Keeps, Keeps, hleading]

theorem kept_filter (h : Keyed rule.key rows) (hp : ∀ r ∈ rule.kept rows, p r = true) :
    rule.kept (rows.filter p) = rule.kept rows := by
  unfold kept
  rw [List.filter_filter]
  refine List.filter_congr fun r hr ↦ ?_
  by_cases hk : rule.Keeps rows r
  · have hpr := hp r (mem_kept.mpr ⟨hr, hk⟩)
    simp [(keeps_filter_iff h hp r).mpr hk, hk, hpr]
  · simp [mt (keeps_filter_iff h hp r).mp hk, hk]

theorem surplus_filter (h : Keyed rule.key rows) (hp : ∀ r ∈ rule.kept rows, p r = true) :
    rule.surplus (rows.filter p) = (rule.surplus rows).filter p := by
  unfold surplus
  rw [List.filter_comm]
  refine congrArg (List.filter p) (List.filter_congr fun r _ ↦ ?_)
  exact decide_eq_decide.mpr (not_congr (keeps_filter_iff h hp r))

/-- A table without surplus is kept as it is. -/
theorem kept_eq_self (h : rule.surplus rows = []) : rule.kept rows = rows := by
  refine List.filter_eq_self.mpr fun r hr ↦ decide_eq_true ?_
  by_contra hk
  have hmem : r ∈ rule.surplus rows := mem_surplus.mpr ⟨hr, hk⟩
  rw [h] at hmem
  cases hmem

/-- Nothing of what is kept is surplus. -/
theorem surplus_kept (h : Keyed rule.key rows) : rule.surplus (rule.kept rows) = [] := by
  have hsurplus := surplus_filter (p := fun r ↦ rule.Keeps rows r) h
    fun r hr ↦ decide_eq_true (mem_kept.mp hr).2
  refine hsurplus.trans (List.filter_eq_nil_iff.mpr fun r hr hk ↦ ?_)
  exact (mem_surplus.mp hr).2 (of_decide_eq_true hk)

/-- Of the rows that satisfy `p`, those inside the window are kept, and of each class the first
ones. -/
theorem countP_kept_le (h : Keyed rule.key rows) {classes : List γ}
    (hclasses : ∀ r ∈ rows, p r = true → rule.cls r ∈ classes) :
    (rule.kept rows).countP p ≤
      classes.length * rule.first + rows.countP fun r ↦ p r && rule.window r := by
  have hsub : (rule.kept rows).filter p ⊆ (classes.flatMap fun c ↦
      leading rule.key rule.first (rows.filter fun s ↦ rule.cls s = c)) ++
        rows.filter fun r ↦ p r && rule.window r := by
    intro r hr
    obtain ⟨hkept, hp⟩ := List.mem_filter.mp hr
    obtain ⟨hmem, hwindow | hfirst⟩ := mem_kept.mp hkept
    · exact List.mem_append_right _ (List.mem_filter.mpr ⟨hmem, by rw [hp, hwindow]; rfl⟩)
    · exact List.mem_append_left _ (List.mem_flatMap.mpr ⟨_, hclasses r hmem hp, hfirst⟩)
  have hnodup : ((rule.kept rows).filter p).Nodup :=
    (h.nodup.sublist List.filter_sublist).sublist List.filter_sublist
  have hlength := (List.subperm_of_subset hnodup hsub).length_le
  have hfirst : (classes.flatMap fun c ↦
      leading rule.key rule.first (rows.filter fun s ↦ rule.cls s = c)).length ≤
        classes.length * rule.first := by
    have hsum := List.sum_le_card_nsmul (classes.map fun c ↦
      (leading rule.key rule.first (rows.filter fun s ↦ rule.cls s = c)).length) rule.first ?_
    · rwa [List.length_map, Nat.nsmul_eq_mul, ← List.length_flatMap] at hsum
    · intro n hn
      obtain ⟨c, -, rfl⟩ := List.mem_map.mp hn
      rw [length_leading]
      exact Nat.min_le_left _ _
  rw [List.length_append] at hlength
  rw [List.countP_eq_length_filter, List.countP_eq_length_filter]
  exact hlength.trans (Nat.add_le_add_right hfirst _)

/-! ## Deletion in batches -/

variable {batch : Nat} {scan : List ρ}

variable (rule batch) in
/-- The first `batch` rows of the surplus are deleted, in some order in which it is met. -/
def Thins (rows scan rows' : List ρ) : Prop :=
  scan.Perm (rule.surplus rows) ∧ rows' = rows.filter fun r ↦ r ∉ scan.take batch

theorem filter_notMem_take {l : List ρ} (h : l.Nodup) (k : Nat) :
    (l.filter fun r ↦ r ∉ l.take k) = l.drop k := by
  conv_lhs => rw [← List.take_append_drop k l, List.filter_append]
  have htake : ((l.take k).filter fun r ↦ r ∉ l.take k) = [] :=
    List.filter_eq_nil_iff.mpr fun r hr hn ↦ of_decide_eq_true hn hr
  have hdrop : ((l.drop k).filter fun r ↦ r ∉ l.take k) = l.drop k :=
    List.filter_eq_self.mpr fun r hr ↦ decide_eq_true fun ht ↦
      List.disjoint_take_drop h (le_refl k) ht hr
  rw [List.take_append_drop, htake, hdrop, List.nil_append]

namespace Thins

theorem spares (h : rule.Thins batch rows scan rows') :
    ∀ r ∈ rule.kept rows, decide (r ∉ scan.take batch) = true := fun _ hr ↦
  decide_eq_true fun ht ↦
    (mem_surplus.mp (h.1.mem_iff.mp (List.mem_of_mem_take ht))).2 (mem_kept.mp hr).2

theorem keyed (h : rule.Thins batch rows scan rows') (hk : Keyed rule.key rows) :
    Keyed rule.key rows' := by
  rw [h.2]
  exact hk.sublist List.filter_sublist

/-- A batch touches nothing that is kept. -/
theorem kept_eq (h : rule.Thins batch rows scan rows') (hk : Keyed rule.key rows) :
    rule.kept rows' = rule.kept rows := by
  rw [h.2]
  exact kept_filter hk h.spares

/-- The rest of the surplus remains. -/
theorem surplus_perm (h : rule.Thins batch rows scan rows') (hk : Keyed rule.key rows) :
    (rule.surplus rows').Perm (scan.drop batch) := by
  have hnodup : scan.Nodup :=
    (h.1.nodup_iff).mpr (hk.nodup.sublist List.filter_sublist)
  rw [h.2, surplus_filter hk h.spares, ← filter_notMem_take hnodup batch]
  exact h.1.symm.filter _

theorem length_surplus (h : rule.Thins batch rows scan rows') (hk : Keyed rule.key rows) :
    (rule.surplus rows').length = (rule.surplus rows).length - batch := by
  rw [(h.surplus_perm hk).length_eq, List.length_drop, h.1.length_eq]

end Thins

/-- Every batch of a run leaves the same rows to keep, and takes its portion of the surplus. -/
theorem thinning_run {scans : List (List ρ)} (hk : Keyed rule.key rows)
    (h : Run (rule.Thins batch) rows scans rows') :
    Keyed rule.key rows' ∧ rule.kept rows' = rule.kept rows ∧
      (rule.surplus rows').length = (rule.surplus rows).length - scans.length * batch := by
  induction h with
  | nil => exact ⟨hk, rfl, by rw [List.length_nil, Nat.zero_mul, Nat.sub_zero]⟩
  | snoc _ hl ih =>
      obtain ⟨hkeyed, hkept, hlength⟩ := ih
      refine ⟨hl.keyed hkeyed, (hl.kept_eq hkeyed).trans hkept, ?_⟩
      rw [hl.length_surplus hkeyed, hlength, List.length_append, List.length_singleton,
        Nat.add_mul, Nat.one_mul, Nat.sub_sub]

/-- Enough batches leave what is kept. -/
theorem thinning_run_ends {scans : List (List ρ)} (hk : Keyed rule.key rows)
    (h : Run (rule.Thins batch) rows scans rows')
    (henough : (rule.surplus rows).length ≤ scans.length * batch) : rows' = rule.kept rows := by
  obtain ⟨-, hkept, hlength⟩ := thinning_run hk h
  rw [Nat.sub_eq_zero_of_le henough] at hlength
  rw [← hkept, kept_eq_self (List.length_eq_zero_iff.mp hlength)]

end Retention

end FeedgateFetcher.Logic.Table
