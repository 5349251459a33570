import Mathlib.Tactic.Common

/-!
# Labelled transition systems

Finite runs of a step relation, oldest label first.  A run grows at its end, so
an invariant is shown by induction on the run with the reached state in hand.
-/

universe u v w

namespace FeedgateFetcher.Logic

variable {σ : Type u} {ℓ : Type v} {τ : Type w}

/-- The finite runs of a step relation. -/
inductive Run (step : σ → ℓ → σ → Prop) (s : σ) : List ℓ → σ → Prop
  | nil : Run step s [] s
  | snoc {ls : List ℓ} {t u : σ} {l : ℓ} :
    Run step s ls t → step t l u → Run step s (ls ++ [l]) u

namespace Run

variable {step : σ → ℓ → σ → Prop}

/-- What holds at the start and is preserved by every step holds at the end. -/
theorem invariant {P : σ → Prop} (hstep : ∀ t l u, P t → step t l u → P u) {s t : σ}
    {ls : List ℓ} (hs : P s) (h : Run step s ls t) : P t := by
  induction h with
  | nil => exact hs
  | snoc _ hl ih => exact hstep _ _ _ ih hl

/-- A potential that falls by `n` at every step of a kind, and rises by `m` at most at those of
another kind only, bounds the number of the first by that of the second. -/
theorem amortized {P : σ → Prop} {potential : σ → ℕ} {p q : ℓ → Bool} {n m : ℕ}
    (hstep : ∀ t l u, P t → step t l u → P u ∧
      potential u + (if p l then n else 0) ≤ potential t + if q l then m else 0) {s t : σ}
    {ls : List ℓ} (hs : P s) (h : Run step s ls t) :
    P t ∧ potential t + ls.countP p * n ≤ potential s + ls.countP q * m := by
  have hcount : ∀ (r : ℓ → Bool) (k : ℕ) (ls : List ℓ) (l : ℓ),
      (ls ++ [l]).countP r * k = ls.countP r * k + if r l then k else 0 := by
    intro r k ls l
    rw [List.countP_append, List.countP_singleton, Nat.add_mul]
    split
    · rw [Nat.one_mul]
    · rw [Nat.zero_mul]
  induction h with
  | nil =>
      rw [List.countP_nil, List.countP_nil, Nat.zero_mul, Nat.zero_mul]
      exact ⟨hs, Nat.le_refl _⟩
  | @snoc ls _ _ l _ hl ih =>
      obtain ⟨hP, hle⟩ := hstep _ _ _ ih.1 hl
      have hrun := ih.2
      refine ⟨hP, ?_⟩
      rw [hcount p n ls l, hcount q m ls l]
      omega

/-- A potential that falls by `n` at every step of a kind, and rises at none, bounds the number of
such steps. -/
theorem countP_mul_le {P : σ → Prop} {potential : σ → ℕ} {p : ℓ → Bool} {n : ℕ}
    (hstep : ∀ t l u, P t → step t l u →
      P u ∧ potential u + (if p l then n else 0) ≤ potential t) {s t : σ} {ls : List ℓ} (hs : P s)
    (h : Run step s ls t) : P t ∧ potential t + ls.countP p * n ≤ potential s := by
  obtain ⟨hP, hle⟩ := h.amortized (q := fun _ ↦ false) (m := 0) hstep hs
  exact ⟨hP, hle⟩

/-- A potential that rises by `m` at most, and only at the steps of a kind, is bounded by the number
of such steps. -/
theorem rises_le {P : σ → Prop} {potential : σ → ℕ} {q : ℓ → Bool} {m : ℕ}
    (hstep : ∀ t l u, P t → step t l u →
      P u ∧ potential u ≤ potential t + if q l then m else 0) {s t : σ} {ls : List ℓ} (hs : P s)
    (h : Run step s ls t) : P t ∧ potential t ≤ potential s + ls.countP q * m := by
  obtain ⟨hP, hle⟩ := h.amortized (p := fun _ ↦ false) (n := 0) hstep hs
  exact ⟨hP, hle⟩

theorem trans {s t u : σ} {ls ls' : List ℓ} (h : Run step s ls t) (h' : Run step t ls' u) :
    Run step s (ls ++ ls') u := by
  induction h' with
  | nil => rwa [List.append_nil]
  | snoc _ hl ih =>
      rw [← List.append_assoc]
      exact ih.snoc hl

theorem single {s t : σ} {l : ℓ} (h : step s l t) : Run step s [l] t := Run.nil.snoc h

theorem mono {step' : σ → ℓ → σ → Prop} (hstep : ∀ s l t, step s l t → step' s l t) {s t : σ}
    {ls : List ℓ} (h : Run step s ls t) : Run step' s ls t := by
  induction h with
  | nil => exact .nil
  | snoc _ hl ih => exact ih.snoc (hstep _ _ _ hl)

/-- A run without what its labels say beyond those of another system. -/
theorem relabel {κ : Type v} {step' : σ → κ → σ → Prop} {f : ℓ → κ}
    (hstep : ∀ s l t, step s l t → step' s (f l) t) {s t : σ} {ls : List ℓ} (h : Run step s ls t) :
    Run step' s (ls.map f) t := by
  induction h with
  | nil => exact .nil
  | snoc _ hl ih =>
      rw [List.map_append, List.map_singleton]
      exact ih.snoc (hstep _ _ _ hl)

/-- What holds of the label of every step holds of all labels of a run. -/
theorem forall_label {P : ℓ → Prop} (hstep : ∀ t l u, step t l u → P l) {s t : σ} {ls : List ℓ}
    (h : Run step s ls t) : ∀ l ∈ ls, P l := by
  induction h with
  | nil => exact nofun
  | snoc _ hl ih =>
      exact List.forall_mem_append.mpr ⟨ih, List.forall_mem_singleton.mpr (hstep _ _ _ hl)⟩

/-- Steps that change nothing can be left out. -/
theorem filter {p : ℓ → Bool} (hstep : ∀ t l u, step t l u → p l = false → u = t) {s t : σ}
    {ls : List ℓ} (h : Run step s ls t) : Run step s (ls.filter p) t := by
  induction h with
  | nil => exact .nil
  | @snoc ls t u l _ hl ih =>
      rw [List.filter_append]
      cases hp : p l with
      | true =>
          rw [List.filter_cons_of_pos hp]
          exact ih.snoc hl
      | false =>
          rw [List.filter_cons_of_neg (ne_true_of_eq_false hp), hstep t l u hl hp]
          exact (List.append_nil _).symm ▸ ih

/-- A system whose steps are runs of another one refines it: its runs are runs
of the other one. -/
theorem simulates {κ : Type v} (step' : τ → κ → τ → Prop) (R : σ → τ → Prop)
    (hstep : ∀ s l t s', R s s' → step s l t → ∃ ks t', Run step' s' ks t' ∧ R t t')
    {s t : σ} {s' : τ} {ls : List ℓ} (hR : R s s') (h : Run step s ls t) :
    ∃ ks t', Run step' s' ks t' ∧ R t t' := by
  induction h with
  | nil => exact ⟨[], s', .nil, hR⟩
  | snoc _ hl ih =>
      obtain ⟨ks, t', hrun, ht⟩ := ih
      obtain ⟨ks', u', hrun', hu⟩ := hstep _ _ _ _ ht hl
      exact ⟨ks ++ ks', u', hrun.trans hrun', hu⟩

end Run

end FeedgateFetcher.Logic
