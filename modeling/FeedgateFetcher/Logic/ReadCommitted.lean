import Mathlib.Logic.Function.Basic
import FeedgateFetcher.Logic.Table

/-!
# Read committed

A table that several transactions change at once.  A statement sees the rows that
are committed when it starts, without those its own transaction has deleted and
with those it has inserted.  A unique key makes an insertion wait for the other
open transactions that have inserted a row under it.
-/

universe u v w x

namespace FeedgateFetcher.Logic

open Table

variable {ρ : Type u} {ν : Type v} {κ : Type w} {ι : Type x}

/-- What an open transaction has done to a table whose rows are named by `ν`. -/
structure Work (ρ : Type u) (ν : Type v) where
  inserted : List ρ
  deleted : List ν

namespace Work

/-- Nothing, as of a transaction that has not begun or has ended. -/
def none : Work ρ ν := ⟨[], []⟩

end Work

/-- A table and the work of the transactions `ι` on it. -/
structure SharedTable (ρ : Type u) (ν : Type v) (ι : Type x) where
  committed : List ρ
  work : ι → Work ρ ν

namespace SharedTable

variable [DecidableEq ν] (name : ρ → ν)

/-- The rows that the transaction `i` sees. -/
def visible (s : SharedTable ρ ν ι) (i : ι) : List ρ :=
  (s.committed.filter fun r ↦ name r ∉ (s.work i).deleted) ++ (s.work i).inserted

/-- No two rows share a key, be they committed, seen by one transaction or in the work of two. -/
structure Unique (key : ρ → κ) (s : SharedTable ρ ν ι) : Prop where
  committed : Keyed key s.committed
  visible : ∀ i, Keyed key (s.visible name i)
  apart : ∀ i j, i ≠ j → ∀ r ∈ (s.work i).inserted, ∀ q ∈ (s.work j).inserted, key r ≠ key q

variable {name} {key : ρ → κ} {s t : SharedTable ρ ν ι}
  {i j : ι} {r q : ρ} {w : Work ρ ν} {rows : List ρ}

theorem mem_visible : r ∈ s.visible name i ↔
    r ∈ s.committed ∧ name r ∉ (s.work i).deleted ∨ r ∈ (s.work i).inserted := by
  simp [SharedTable.visible]

theorem Unique.of_idle (h : Keyed key rows) : Unique name key (⟨rows, fun _ : ι ↦ .none⟩) where
  committed := h
  visible _ := by
    rw [SharedTable.visible]
    exact (List.append_nil (rows.filter _)).symm ▸ h.sublist List.filter_sublist
  apart _ _ _ _ hr := nomatch hr

/-- What another transaction has inserted does not collide with what this one sees and it does
not delete. -/
theorem Unique.apart_visible (h : Unique name key s) (hij : j ≠ i) (hr : r ∈ (s.work j).inserted)
    (hq : q ∈ s.visible name i) (hkept : name q ∉ (s.work j).deleted) : key q ≠ key r := by
  rcases mem_visible.mp hq with ⟨hq, -⟩ | hq
  · have hkeyed := h.visible j
    rw [SharedTable.visible, Keyed, List.map_append, List.nodup_append] at hkeyed
    refine hkeyed.2.2 _ (List.mem_map_of_mem ?_) _ (List.mem_map_of_mem hr)
    exact List.mem_filter.mpr ⟨hq, decide_eq_true hkept⟩
  · exact (h.apart j i hij r hr q hq).symm

variable [DecidableEq ι]

/-- The statements and the ends of the transactions on a table with a unique key. -/
inductive Step (name : ρ → ν) (key : ρ → κ) (s : SharedTable ρ ν ι) : SharedTable ρ ν ι → Prop
  /-- A row is inserted under a free key that no other open transaction has taken. -/
  | insert {i : ι} {r : ρ} (hwait : ∀ j ≠ i, ∀ q ∈ (s.work j).inserted, key q ≠ key r)
    (hfree : ∀ q ∈ s.visible name i, key q ≠ key r) :
    Step name key s ⟨s.committed,
      Function.update s.work i ⟨(s.work i).inserted ++ [r], (s.work i).deleted⟩⟩
  | delete {i : ι} {n : ν} :
    Step name key s ⟨s.committed,
      Function.update s.work i
        ⟨(s.work i).inserted.filter fun r ↦ name r ≠ n, n :: (s.work i).deleted⟩⟩
  | commit {i : ι} : Step name key s ⟨s.visible name i, Function.update s.work i .none⟩
  | rollback {i : ι} : Step name key s ⟨s.committed, Function.update s.work i .none⟩

theorem visible_update_self :
    SharedTable.visible name ⟨rows, Function.update s.work i w⟩ i =
      (rows.filter fun r ↦ name r ∉ w.deleted) ++ w.inserted := by
  rw [SharedTable.visible]
  simp only [Function.update_self]

theorem visible_update_of_ne (h : j ≠ i) :
    SharedTable.visible name ⟨rows, Function.update s.work i w⟩ j =
      (rows.filter fun r ↦ name r ∉ (s.work j).deleted) ++ (s.work j).inserted := by
  rw [SharedTable.visible]
  simp only [Function.update_of_ne h]

namespace Unique

/-- A change of the work of one transaction, which then sees distinct keys and keeps clear of
the insertions of the others. -/
theorem update (h : Unique name key s)
    (hself : Keyed key ((s.committed.filter fun r ↦ name r ∉ w.deleted) ++ w.inserted))
    (hapart : ∀ j ≠ i, ∀ r ∈ w.inserted, ∀ q ∈ (s.work j).inserted, key r ≠ key q) :
    Unique name key ⟨s.committed, Function.update s.work i w⟩ where
  committed := h.committed
  visible j := by
    by_cases hj : j = i
    · subst hj
      rw [visible_update_self]
      exact hself
    · rw [visible_update_of_ne hj]
      exact h.visible j
  apart j k hjk r hr q hq := by
    dsimp only at hr hq
    by_cases hj : j = i
    · subst hj
      rw [Function.update_self] at hr
      rw [Function.update_of_ne hjk.symm] at hq
      exact hapart k hjk.symm r hr q hq
    · rw [Function.update_of_ne hj] at hr
      by_cases hk : k = i
      · subst hk
        rw [Function.update_self] at hq
        exact (hapart j hj q hq r hr).symm
      · rw [Function.update_of_ne hk] at hq
        exact h.apart j k hjk r hr q hq

theorem commit (h : Unique name key s) :
    Unique name key ⟨s.visible name i, Function.update s.work i .none⟩ where
  committed := h.visible i
  visible j := by
    by_cases hj : j = i
    · subst hj
      rw [visible_update_self]
      exact (List.append_nil _).symm ▸ (h.visible j).sublist List.filter_sublist
    · rw [visible_update_of_ne hj, Keyed, List.map_append]
      refine List.nodup_append.mpr ⟨?_, ?_, ?_⟩
      · exact (h.visible i).sublist List.filter_sublist
      · have hkeyed := h.visible j
        rw [SharedTable.visible, Keyed, List.map_append] at hkeyed
        exact (List.nodup_append.mp hkeyed).2.1
      · rintro k hk l hl
        obtain ⟨q, hq, rfl⟩ := List.mem_map.mp hk
        obtain ⟨r, hr, rfl⟩ := List.mem_map.mp hl
        obtain ⟨hq, hkept⟩ := List.mem_filter.mp hq
        exact h.apart_visible hj hr hq (of_decide_eq_true hkept)
  apart j k hjk r hr q hq := by
    dsimp only at hr hq
    by_cases hj : j = i
    · subst hj
      rw [Function.update_self] at hr
      cases hr
    · by_cases hk : k = i
      · subst hk
        rw [Function.update_self] at hq
        cases hq
      · rw [Function.update_of_ne hj] at hr
        rw [Function.update_of_ne hk] at hq
        exact h.apart j k hjk r hr q hq

/-- Keys stay unique, whatever the transactions do. -/
theorem step (h : Unique name key s) (hs : Step name key s t) : Unique name key t := by
  cases hs with
  | @insert i r hwait hfree =>
      refine h.update ?_ ?_
      · rw [← List.append_assoc]
        exact (h.visible i).append_single hfree
      · intro j hj r' hr' q hq
        rcases List.mem_append.mp hr' with hr' | hr'
        · exact h.apart i j hj.symm r' hr' q hq
        · rw [List.mem_singleton.mp hr']
          exact (hwait j hj q hq).symm
  | @delete i n =>
      refine h.update ?_ fun j hj r hr q hq ↦ ?_
      · refine (h.visible i).sublist (List.Sublist.append ?_ List.filter_sublist)
        refine List.monotone_filter_right _ fun r hr ↦ ?_
        have hr := of_decide_eq_true hr
        exact decide_eq_true fun hmem ↦ hr (List.mem_cons_of_mem _ hmem)
      · exact h.apart i j hj.symm r (List.mem_of_mem_filter hr) q hq
  | commit => exact h.commit
  | @rollback i =>
      refine h.update ?_ fun j _ r hr ↦ nomatch hr
      exact (List.append_nil _).symm ▸ h.committed.sublist List.filter_sublist

end Unique

end SharedTable

end FeedgateFetcher.Logic
