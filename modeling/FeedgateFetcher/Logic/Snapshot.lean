import Mathlib.Order.Lattice

/-!
# Writing back what has changed

A transaction loads a value, works on its copy, and writes the copy back only if it
differs from what was loaded.  What was committed in the meantime survives exactly
where the copy has not changed.
-/

universe u v

namespace FeedgateFetcher.Logic

variable {α : Type u} [DecidableEq α]

/-- The value after the commit of a transaction that has loaded `loaded` and holds `mine`. -/
def writeBack (loaded mine current : α) : α := if mine = loaded then current else mine

variable {loaded mine current : α}

/-- A transaction that nobody has interrupted leaves what it holds. -/
@[simp] theorem writeBack_current : writeBack current mine current = mine := by
  unfold writeBack
  split
  · rename_i h
    exact h.symm
  · rfl

@[simp] theorem writeBack_unchanged : writeBack loaded loaded current = current := if_pos rfl

@[simp] theorem writeBack_self : writeBack loaded mine mine = mine := ite_self mine

theorem writeBack_of_ne (h : mine ≠ loaded) : writeBack loaded mine current = mine := if_neg h

theorem writeBack_eq_or : writeBack loaded mine current = current ∨
    writeBack loaded mine current = mine := by
  unfold writeBack
  split
  · exact .inl rfl
  · exact .inr rfl

theorem writeBack_eq_mine_iff :
    writeBack loaded mine current = mine ↔ (loaded = mine → current = mine) := by
  by_cases h : mine = loaded
  · subst h
    rw [writeBack_unchanged]
    exact ⟨fun h _ ↦ h, fun h ↦ h rfl⟩
  · exact iff_of_true (writeBack_of_ne h) fun h' ↦ absurd h'.symm h

theorem writeBack_eq_ite :
    writeBack loaded mine current = if loaded = mine then current else mine :=
  if_congr eq_comm rfl rfl

/-- A clock does not go back exactly when it is not written, or is written forward. -/
theorem le_writeBack_iff {β : Type v} [Preorder β] (clock : α → β) :
    clock current ≤ clock (writeBack loaded mine current) ↔
      mine = loaded ∨ clock current ≤ clock mine := by
  by_cases h : mine = loaded
  · rw [h, writeBack_unchanged]
    exact ⟨fun _ ↦ .inl rfl, fun _ ↦ le_refl _⟩
  · rw [writeBack_of_ne h]
    exact ⟨.inr, fun h' ↦ h'.resolve_left h⟩

end FeedgateFetcher.Logic
