import Mathlib.Data.List.Nodup

/-!
# Keyed tables

A table as the list of its rows, each with a key.  `upsert` is an insertion that
revises the rows under the key of the new row instead, when there are any.
-/

universe u v

namespace FeedgateFetcher.Logic.Table

variable {ρ : Type u} {κ : Type v} (key : ρ → κ)

/-- No two rows share a key. -/
def Keyed (rows : List ρ) : Prop := (rows.map key).Nodup

instance [DecidableEq κ] (rows : List ρ) : Decidable (Keyed key rows) :=
  inferInstanceAs (Decidable (List.Nodup _))

variable {key} {rows rows' : List ρ} {r s fresh : ρ} {revise : ρ → ρ}

namespace Keyed

theorem nil (key : ρ → κ) : Keyed key [] := List.nodup_nil

/-- A row is known by its key. -/
theorem eq_of_key (h : Keyed key rows) (hr : r ∈ rows) (hs : s ∈ rows) (hk : key r = key s) :
    r = s := List.inj_on_of_nodup_map h hr hs hk

theorem sublist (h : Keyed key rows) (hs : rows'.Sublist rows) : Keyed key rows' :=
  List.Nodup.sublist (hs.map key) h

theorem perm (h : Keyed key rows) (hp : rows'.Perm rows) : Keyed key rows' :=
  (hp.map key).nodup_iff.mpr h

theorem nodup (h : Keyed key rows) : rows.Nodup := List.Nodup.of_map key h

/-- A revision of rows that leaves their keys alone. -/
theorem map (h : Keyed key rows) (hkey : ∀ r, key (revise r) = key r) :
    Keyed key (rows.map revise) := by
  have hmap : (rows.map revise).map key = rows.map key := by
    rw [List.map_map]
    exact List.map_congr_left fun r _ ↦ hkey r
  rw [Keyed, hmap]
  exact h

/-- An insertion under a new key. -/
theorem append_single (h : Keyed key rows) (hnew : ∀ r ∈ rows, key r ≠ key fresh) :
    Keyed key (rows ++ [fresh]) := by
  rw [Keyed, List.map_append, List.map_singleton]
  refine List.nodup_append.mpr ⟨h, List.nodup_singleton _, ?_⟩
  intro a ha b hb
  obtain ⟨r, hr, rfl⟩ := List.mem_map.mp ha
  rw [List.mem_singleton.mp hb]
  exact hnew r hr

end Keyed

/-! ## Insert or revise -/

variable [DecidableEq κ]

variable (key) in
/-- Revise the rows under the key of `fresh`, or insert `fresh` when there are none. -/
def upsert (fresh : ρ) (revise : ρ → ρ) (rows : List ρ) : List ρ :=
  if ∃ r ∈ rows, key r = key fresh then
    rows.map fun r ↦ if key r = key fresh then revise r else r
  else rows ++ [fresh]

theorem upsert_of_mem (h : ∃ r ∈ rows, key r = key fresh) :
    upsert key fresh revise rows = rows.map fun r ↦ if key r = key fresh then revise r else r :=
  if_pos h

theorem upsert_of_not_mem (h : ∀ r ∈ rows, key r ≠ key fresh) :
    upsert key fresh revise rows = rows ++ [fresh] :=
  if_neg fun ⟨r, hr, hk⟩ ↦ h r hr hk

/-- Every row comes from a row of before, or is new under a new key. -/
theorem mem_upsert (h : r ∈ upsert key fresh revise rows) :
    (∃ o ∈ rows, r = if key o = key fresh then revise o else o) ∨
      r = fresh ∧ ∀ o ∈ rows, key o ≠ key fresh := by
  by_cases hex : ∃ o ∈ rows, key o = key fresh
  · rw [upsert_of_mem hex] at h
    obtain ⟨o, ho, rfl⟩ := List.mem_map.mp h
    exact .inl ⟨o, ho, rfl⟩
  · have hnew : ∀ o ∈ rows, key o ≠ key fresh := fun o ho hk ↦ hex ⟨o, ho, hk⟩
    rw [upsert_of_not_mem hnew] at h
    rcases List.mem_append.mp h with hr | hr
    · exact .inl ⟨r, hr, (if_neg (hnew r hr)).symm⟩
    · exact .inr ⟨List.mem_singleton.mp hr, hnew⟩

/-- No row gets lost. -/
theorem mem_upsert_of_mem (h : r ∈ rows) :
    (if key r = key fresh then revise r else r) ∈ upsert key fresh revise rows := by
  by_cases hex : ∃ o ∈ rows, key o = key fresh
  · rw [upsert_of_mem hex]
    exact List.mem_map_of_mem h
  · have hnew : ∀ o ∈ rows, key o ≠ key fresh := fun o ho hk ↦ hex ⟨o, ho, hk⟩
    rw [upsert_of_not_mem hnew, if_neg (hnew r h)]
    exact List.mem_append_left _ h

section

variable (hkey : ∀ r, key (revise r) = key r)

include hkey

theorem key_revised (o : ρ) : key (if key o = key fresh then revise o else o) = key o := by
  split
  · exact hkey o
  · rfl

theorem Keyed.upsert (h : Keyed key rows) : Keyed key (upsert key fresh revise rows) := by
  by_cases hex : ∃ r ∈ rows, key r = key fresh
  · rw [upsert_of_mem hex]
    exact h.map (key_revised hkey)
  · have hnew : ∀ r ∈ rows, key r ≠ key fresh := fun r hr hk ↦ hex ⟨r, hr, hk⟩
    rw [upsert_of_not_mem hnew]
    exact h.append_single hnew

/-- Rows under other keys are left alone. -/
theorem mem_upsert_iff_of_ne (h : key r ≠ key fresh) :
    r ∈ Table.upsert key fresh revise rows ↔ r ∈ rows := by
  constructor
  · intro hr
    rcases mem_upsert hr with ⟨o, ho, rfl⟩ | ⟨rfl, -⟩
    · rw [key_revised hkey] at h
      rw [if_neg h]
      exact ho
    · exact absurd rfl h
  · intro hr
    have hmem : (if key r = key fresh then revise r else r) ∈
        Table.upsert key fresh revise rows := mem_upsert_of_mem hr
    rwa [if_neg h] at hmem

/-- Afterwards the key is taken. -/
theorem exists_mem_upsert : ∃ r ∈ Table.upsert key fresh revise rows, key r = key fresh := by
  by_cases hex : ∃ r ∈ rows, key r = key fresh
  · obtain ⟨r, hr, hk⟩ := hex
    exact ⟨if key r = key fresh then revise r else r, mem_upsert_of_mem hr,
      (key_revised hkey r).trans hk⟩
  · rw [upsert_of_not_mem fun r hr hk ↦ hex ⟨r, hr, hk⟩]
    exact ⟨fresh, List.mem_append_right _ (List.mem_singleton.mpr rfl), rfl⟩

end

end FeedgateFetcher.Logic.Table
