import Mathlib.Data.List.Sort

/-!
# Waiting for a turn

Items that are served in batches, those with the smallest keys first, and that get another key
whenever they are served or changed.  The items whose turn comes no later than a key are counted:
a service that leaves out the key takes a full batch off that number, as long as the items it
serves come back with greater keys.
-/

universe u v

namespace FeedgateFetcher.Logic.Waiting

variable {α : Type u} {κ : Type v} [LinearOrder κ] (key : α → κ)

/-- The number of items whose turn comes no later than `k`. -/
def upTo (k : κ) (items : List α) : ℕ := items.countP fun x ↦ key x ≤ k

variable {key} {k : κ} {items : List α} {q : α → Prop} [DecidablePred q] {u : α → α}

theorem upTo_cons (x : α) :
    upTo key k (x :: items) = upTo key k items + if key x ≤ k then 1 else 0 := by
  rw [upTo, List.countP_cons]
  simp only [decide_eq_true_eq]
  rfl

theorem upTo_pos {x : α} (h : x ∈ items) : 0 < upTo key (key x) items :=
  List.countP_pos_iff.mpr ⟨x, h, decide_eq_true (le_refl _)⟩

/-- Items that are served leave, if they come back with a greater key. -/
theorem upTo_serve (h : ∀ x ∈ items, q x → key x ≤ k ∧ k < key (u x)) :
    upTo key k (items.map fun x ↦ if q x then u x else x) + items.countP (fun x ↦ q x) =
      upTo key k items := by
  induction items with
  | nil => rfl
  | cons x items ih =>
      have hrest := ih fun y hy ↦ h y (List.mem_cons_of_mem _ hy)
      rw [List.map_cons, upTo_cons, upTo_cons, List.countP_cons]
      by_cases hq : q x
      · obtain ⟨hle, hlt⟩ := h x List.mem_cons_self hq
        simp only [if_pos hq, if_pos hle, if_neg (not_le.mpr hlt), decide_eq_true hq, if_true]
        omega
      · simp only [if_neg hq, decide_eq_false hq, Bool.false_eq_true, if_false]
        omega

/-- Items that are changed but not brought forward add nothing. -/
theorem upTo_postpone (h : ∀ x ∈ items, q x → key (u x) ≤ k → key x ≤ k) :
    upTo key k (items.map fun x ↦ if q x then u x else x) ≤ upTo key k items := by
  induction items with
  | nil => exact le_refl _
  | cons x items ih =>
      have hrest := ih fun y hy ↦ h y (List.mem_cons_of_mem _ hy)
      rw [List.map_cons, upTo_cons, upTo_cons]
      refine Nat.add_le_add hrest ?_
      by_cases hq : q x
      · rw [if_pos hq]
        split
        · rename_i hle
          rw [if_pos (h x List.mem_cons_self hq hle)]
        · exact Nat.zero_le _
      · rw [if_neg hq]

/-- Whatever is done to some items adds no more than their number. -/
theorem upTo_change_le :
    upTo key k (items.map fun x ↦ if q x then u x else x) ≤
      upTo key k items + items.countP (fun x ↦ q x) := by
  induction items with
  | nil => exact le_refl _
  | cons x items ih =>
      rw [List.map_cons, upTo_cons, upTo_cons, List.countP_cons]
      by_cases hq : q x
      · simp only [if_pos hq, decide_eq_true hq, if_true]
        split <;> omega
      · simp only [if_neg hq, decide_eq_false hq, Bool.false_eq_true, if_false]
        omega

/-- Whoever is left out of a batch has a full batch before it. -/
theorem batch_full {n : ℕ} {x : α} (hx : x ∈ items)
    (hout : x ∉ (items.insertionSort fun a b ↦ key a ≤ key b).take n) :
    ((items.insertionSort fun a b ↦ key a ≤ key b).take n).length = n ∧
      ∀ y ∈ (items.insertionSort fun a b ↦ key a ≤ key b).take n, key y ≤ key x := by
  have : Std.Total fun a b : α ↦ key a ≤ key b := ⟨fun a b ↦ le_total (key a) (key b)⟩
  have : IsTrans α fun a b ↦ key a ≤ key b := ⟨fun _ _ _ h h' ↦ h.trans h'⟩
  have hsorted := List.pairwise_insertionSort (fun a b : α ↦ key a ≤ key b) items
  have hmem : x ∈ items.insertionSort fun a b ↦ key a ≤ key b :=
    (List.mem_insertionSort _).mpr hx
  generalize items.insertionSort (fun a b ↦ key a ≤ key b) = sorted at hout hsorted hmem ⊢
  have hlate : x ∈ sorted.drop n := by
    rw [← List.take_append_drop n sorted, List.mem_append] at hmem
    exact hmem.resolve_left hout
  constructor
  · rw [List.length_take]
    have hpos := List.length_pos_of_mem hlate
    rw [List.length_drop] at hpos
    omega
  · intro y hy
    rw [← List.take_append_drop n sorted, List.pairwise_append] at hsorted
    exact hsorted.2.2 y hy x hlate

end FeedgateFetcher.Logic.Waiting
