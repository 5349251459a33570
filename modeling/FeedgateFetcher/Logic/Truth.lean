import Mathlib.Tactic.Common

/-!
# Three-valued logic

The truth values of SQL: a comparison with NULL is neither true nor false, and a
`WHERE` selects what is true.
-/

universe u

namespace FeedgateFetcher.Logic

/-- A truth value of SQL, `none` being NULL. -/
abbrev Truth := Option Bool

namespace Truth

/-- `AND`. -/
protected def and : Truth → Truth → Truth
  | some false, _ => some false
  | _, some false => some false
  | some true, some true => some true
  | _, _ => none

/-- `OR`. -/
protected def or : Truth → Truth → Truth
  | some true, _ => some true
  | _, some true => some true
  | some false, some false => some false
  | _, _ => none

/-- A comparison of two nullable values. -/
def compare {α : Type u} (r : α → α → Bool) (a b : Option α) : Truth :=
  match a, b with
  | some a, some b => some (r a b)
  | _, _ => none

/-- What `WHERE` selects. -/
def Holds (t : Truth) : Prop := t = some true

instance (t : Truth) : Decidable t.Holds := inferInstanceAs (Decidable (_ = _))

@[simp] theorem holds_some_iff {b : Bool} : Holds (some b) ↔ b = true := by
  rw [Holds, Option.some.injEq]

@[simp] theorem not_holds_none : ¬Holds none := nofun

@[simp] theorem holds_and_iff {s t : Truth} : (s.and t).Holds ↔ s.Holds ∧ t.Holds := by
  rcases s with _ | _ | _ <;> rcases t with _ | _ | _ <;> decide

@[simp] theorem holds_or_iff {s t : Truth} : (s.or t).Holds ↔ s.Holds ∨ t.Holds := by
  rcases s with _ | _ | _ <;> rcases t with _ | _ | _ <;> decide

@[simp] theorem holds_compare_some_iff {α : Type u} {r : α → α → Bool} {a : Option α} {b : α} :
    (compare r a (some b)).Holds ↔ ∃ x ∈ a, r x b = true := by
  cases a with
  | none => exact iff_of_false nofun nofun
  | some a =>
      refine holds_some_iff.trans ⟨fun h ↦ ⟨a, rfl, h⟩, ?_⟩
      rintro ⟨_, ⟨⟩, h⟩
      exact h

end Truth

end FeedgateFetcher.Logic
