import Mathlib.Order.Lattice
import FeedgateFetcher.Logic.Effect

/-!
# Counted logs

How much a computation appends to a log, at most.  The rules add up through the combinators,
whether the computation returns or raises.
-/

universe u

namespace FeedgateFetcher.Logic.Act

variable {σ ε ε' α β ω : Type u}

/-- Every run of `m` appends at most `n` entries to the log `view` of the state. -/
def Appends (view : σ → List ω) (n : ℕ) (m : Act σ ε α) : Prop :=
  ∀ s, ∃ sent, view (m s).2 = view s ++ sent ∧ sent.length ≤ n

variable {view : σ → List ω} {n k : ℕ} {m : Act σ ε α}

theorem Appends.mono (h : Appends view n m) (hnk : n ≤ k) : Appends view k m := by
  intro s
  obtain ⟨sent, hs, hn⟩ := h s
  exact ⟨sent, hs, hn.trans hnk⟩

theorem Keeps.appends (h : Keeps view m) (n : ℕ) : Appends view n m :=
  fun s ↦ ⟨[], by rw [h s, List.append_nil], Nat.zero_le n⟩

theorem appends_modify {f : σ → σ} {w : ω} (h : ∀ s, view (f s) = view s ++ [w]) :
    Appends view 1 (modify f : Act σ ε PUnit) := fun s ↦ ⟨[w], h s, le_refl 1⟩

theorem Appends.bind {f : α → Act σ ε β} (hm : Appends view n m) (hf : ∀ a, Appends view k (f a)) :
    Appends view (n + k) (m >>= f) := by
  intro s
  obtain ⟨sent, hs, hn⟩ := hm s
  rw [bind_apply]
  rcases hms : m s with ⟨_ | a, t⟩
  · rw [hms] at hs
    exact ⟨sent, hs, hn.trans (Nat.le_add_right n k)⟩
  · rw [hms] at hs
    obtain ⟨sent', hs', hk⟩ := hf a t
    refine ⟨sent ++ sent', ?_, ?_⟩
    · rw [← List.append_assoc, ← hs]
      exact hs'
    · rw [List.length_append]
      exact Nat.add_le_add hn hk

/-- What comes before costs nothing. -/
theorem Keeps.bind_appends {f : α → Act σ ε β} (hm : Keeps view m)
    (hf : ∀ a, Appends view n (f a)) : Appends view n (m >>= f) := by
  have h := (hm.appends 0).bind hf
  rwa [Nat.zero_add] at h

/-- What comes after costs nothing. -/
theorem Appends.bind_keeps {f : α → Act σ ε β} (hm : Appends view n m)
    (hf : ∀ a, Keeps view (f a)) : Appends view n (m >>= f) :=
  hm.bind fun a ↦ (hf a).appends 0

theorem Appends.handle {h : ε → Act σ ε α} (hm : Appends view n m)
    (hh : ∀ e, Appends view k (h e)) : Appends view (n + k) (handle m h) := by
  intro s
  obtain ⟨sent, hs, hn⟩ := hm s
  rcases hms : m s with ⟨e | a, t⟩
  · rw [hms] at hs
    rw [handle_of_error hms]
    obtain ⟨sent', hs', hk⟩ := hh e t
    refine ⟨sent ++ sent', ?_, ?_⟩
    · rw [← List.append_assoc, ← hs]
      exact hs'
    · rw [List.length_append]
      exact Nat.add_le_add hn hk
  · rw [hms] at hs
    rw [handle_of_ok hms]
    exact ⟨sent, hs, hn.trans (Nat.le_add_right n k)⟩

theorem Appends.ite {c : Prop} [Decidable c] {m' : Act σ ε α} (h : Appends view n m)
    (h' : Appends view n m') : Appends view n (if c then m else m') := by
  split
  · exact h
  · exact h'

theorem Appends.mapError (h : Appends view n m) (f : ε → ε') : Appends view n (mapError f m) := h

/-- The log of a component of the state. -/
theorem Appends.zoom {τ : Type u} {part : τ → σ} {put : σ → τ → τ} {view' : τ → List ω}
    (h : Appends view n m) (hpart : ∀ t, view' t = view (part t))
    (hput : ∀ s t, view' (put s t) = view s) : Appends view' n (zoom part put m) := by
  intro t
  obtain ⟨sent, hs, hn⟩ := h (part t)
  exact ⟨sent, (hput _ t).trans (hs.trans (congrArg (· ++ sent) (hpart t).symm)), hn⟩

end FeedgateFetcher.Logic.Act
