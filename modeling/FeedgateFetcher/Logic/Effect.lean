import Mathlib.Tactic.Common

/-!
# Imperative computations with exceptions

`Act σ ε α` is a computation over a state `σ` that returns an `α` or raises an
`ε`.  As in an imperative language, the state at the point of a raise is the
state the handler runs in: nothing is rolled back.

Two judgements are used to reason about a computation without unfolding it.
`Ensures m s R` says that the run of `m` from `s` ends in a result and a state
related by `R`; its rules compute it through every combinator.  `Keeps p m` is
the frame property: no run of `m` changes the projection `p` of the state,
whether it returns or raises.
-/

universe u

namespace FeedgateFetcher.Logic

/-- A stateful computation that may raise. -/
def Act (σ ε α : Type u) : Type u := σ → Except ε α × σ

namespace Act

variable {σ ε ε' α β γ : Type u}

instance instMonad : Monad (Act σ ε) where
  pure a := fun s ↦ (.ok a, s)
  bind m f := fun s ↦ match m s with
    | (.ok a, s') => f a s'
    | (.error e, s') => (.error e, s')

/-- `raise e`. -/
def raise (e : ε) : Act σ ε α := fun s ↦ (.error e, s)

/-- `try: m except: h`. -/
def handle (m : Act σ ε α) (h : ε → Act σ ε α) : Act σ ε α := fun s ↦
  match m s with
  | (.ok a, s') => (.ok a, s')
  | (.error e, s') => h e s'

/-- Read the state. -/
def get : Act σ ε σ := fun s ↦ (.ok s, s)

/-- Change the state. -/
def modify (f : σ → σ) : Act σ ε PUnit := fun s ↦ (.ok ⟨⟩, f s)

/-- Translate the exceptions of a computation. -/
def mapError (f : ε → ε') (m : Act σ ε α) : Act σ ε' α := fun s ↦ ((m s).1.mapError f, (m s).2)

/-- Run a computation on a component of the state. -/
def zoom {τ : Type u} (view : τ → σ) (put : σ → τ → τ) (m : Act σ ε α) : Act τ ε α := fun t ↦
  ((m (view t)).1, put (m (view t)).2 t)

/-- A pure computation that may raise. -/
def ofExcept (r : Except ε α) : Act σ ε α := fun s ↦ (r, s)

@[simp] theorem pure_apply (a : α) (s : σ) : (pure a : Act σ ε α) s = (.ok a, s) := rfl

@[simp] theorem raise_apply (e : ε) (s : σ) : (raise e : Act σ ε α) s = (.error e, s) := rfl

@[simp] theorem get_apply (s : σ) : (get : Act σ ε σ) s = (.ok s, s) := rfl

@[simp] theorem modify_apply (f : σ → σ) (s : σ) :
    (modify f : Act σ ε PUnit) s = (.ok ⟨⟩, f s) := rfl

@[simp] theorem ofExcept_apply (r : Except ε α) (s : σ) : (ofExcept r : Act σ ε α) s = (r, s) := rfl

theorem bind_apply (m : Act σ ε α) (f : α → Act σ ε β) (s : σ) :
    (m >>= f) s = match m s with
      | (.ok a, s') => f a s'
      | (.error e, s') => (.error e, s') := rfl

theorem bind_of_ok {m : Act σ ε α} {f : α → Act σ ε β} {s s' : σ} {a : α}
    (h : m s = (.ok a, s')) : (m >>= f) s = f a s' := by
  rw [bind_apply, h]

theorem bind_of_error {m : Act σ ε α} {f : α → Act σ ε β} {s s' : σ} {e : ε}
    (h : m s = (.error e, s')) : (m >>= f) s = (.error e, s') := by
  rw [bind_apply, h]

theorem handle_of_ok {m : Act σ ε α} {h : ε → Act σ ε α} {s s' : σ} {a : α}
    (hm : m s = (.ok a, s')) : handle m h s = (.ok a, s') := by
  unfold handle
  rw [hm]

theorem handle_of_error {m : Act σ ε α} {h : ε → Act σ ε α} {s s' : σ} {e : ε}
    (hm : m s = (.error e, s')) : handle m h s = h e s' := by
  unfold handle
  rw [hm]

@[simp] theorem modify_bind_apply (f : σ → σ) (k : PUnit → Act σ ε β) (s : σ) :
    ((modify f : Act σ ε PUnit) >>= k) s = k ⟨⟩ (f s) := rfl

@[simp] theorem get_bind_apply (k : σ → Act σ ε β) (s : σ) :
    ((get : Act σ ε σ) >>= k) s = k s s := rfl

@[simp] theorem raise_bind_apply (e : ε) (k : α → Act σ ε β) (s : σ) :
    ((raise e : Act σ ε α) >>= k) s = (.error e, s) := rfl

@[simp] theorem ofExcept_ok_bind_apply (a : α) (k : α → Act σ ε β) (s : σ) :
    ((ofExcept (.ok a) : Act σ ε α) >>= k) s = k a s := rfl

@[simp] theorem ofExcept_error_bind_apply (e : ε) (k : α → Act σ ε β) (s : σ) :
    ((ofExcept (.error e) : Act σ ε α) >>= k) s = (.error e, s) := rfl

/-- A conditional change of the state. -/
theorem modify_if_apply (c : Prop) [Decidable c] (f : σ → σ) (s : σ) :
    (if c then modify f else pure ⟨⟩ : Act σ ε PUnit) s = (.ok ⟨⟩, if c then f s else s) := by
  split <;> rfl

instance instLawfulMonad : LawfulMonad (Act σ ε) := LawfulMonad.mk' (Act σ ε)
  (fun m ↦ by
    funext s
    change (match m s with
      | (.ok a, s') => (.ok a, s')
      | (.error e, s') => (.error e, s')) = m s
    rcases m s with ⟨_ | _, _⟩ <;> rfl)
  (fun _ _ ↦ rfl)
  (fun m f g ↦ by
    funext s
    rw [bind_apply, bind_apply, bind_apply]
    rcases m s with ⟨_ | _, _⟩ <;> rfl)

/-! ## Postconditions -/

/-- The run of `m` from `s` ends in a result and a state related by `R`. -/
def Ensures (m : Act σ ε α) (s : σ) (R : Except ε α → σ → Prop) : Prop := R (m s).1 (m s).2

/-- Continue a postcondition past a computation that returned. -/
def Through (f : α → Act σ ε β) (R : Except ε β → σ → Prop) : Except ε α → σ → Prop
  | .ok a, s => Ensures (f a) s R
  | .error e, s => R (.error e) s

/-- Continue a postcondition past a computation that raised. -/
def Caught (h : ε → Act σ ε α) (R : Except ε α → σ → Prop) : Except ε α → σ → Prop
  | .ok a, s => R (.ok a) s
  | .error e, s => Ensures (h e) s R

@[simp] theorem through_ok {f : α → Act σ ε β} {R : Except ε β → σ → Prop} {a : α} {s : σ} :
    Through f R (.ok a) s ↔ Ensures (f a) s R := Iff.rfl

@[simp] theorem through_error {f : α → Act σ ε β} {R : Except ε β → σ → Prop} {e : ε} {s : σ} :
    Through f R (.error e) s ↔ R (.error e) s := Iff.rfl

@[simp] theorem caught_ok {h : ε → Act σ ε α} {R : Except ε α → σ → Prop} {a : α} {s : σ} :
    Caught h R (.ok a) s ↔ R (.ok a) s := Iff.rfl

@[simp] theorem caught_error {h : ε → Act σ ε α} {R : Except ε α → σ → Prop} {e : ε} {s : σ} :
    Caught h R (.error e) s ↔ Ensures (h e) s R := Iff.rfl

/-- A postcondition of a computation whose run is known. -/
theorem ensures_of_run {m : Act σ ε α} {s t : σ} {r : Except ε α} {R : Except ε α → σ → Prop}
    (h : m s = (r, t)) : Ensures m s R ↔ R r t := by
  unfold Ensures
  rw [h]

theorem ensures_bind {m : Act σ ε α} {f : α → Act σ ε β} {s : σ} {R : Except ε β → σ → Prop} :
    Ensures (m >>= f) s R ↔ Ensures m s (Through f R) := by
  unfold Ensures
  rw [bind_apply]
  rcases m s with ⟨_ | _, _⟩ <;> rfl

theorem ensures_handle {m : Act σ ε α} {h : ε → Act σ ε α} {s : σ}
    {R : Except ε α → σ → Prop} : Ensures (handle m h) s R ↔ Ensures m s (Caught h R) := by
  unfold Ensures handle
  rcases m s with ⟨_ | _, _⟩ <;> rfl

/-! ## Frames -/

/-- No run of `m` changes the projection `p` of the state. -/
def Keeps (p : σ → γ) (m : Act σ ε α) : Prop := ∀ s, p (m s).2 = p s

theorem Keeps.eq_of_run {p : σ → γ} {m : Act σ ε α} (h : Keeps p m) {s t : σ} {r : Except ε α}
    (hm : m s = (r, t)) : p t = p s := by
  have hs := h s
  rwa [hm] at hs

theorem keeps_pure (p : σ → γ) (a : α) : Keeps p (pure a : Act σ ε α) := fun _ ↦ rfl

theorem keeps_raise (p : σ → γ) (e : ε) : Keeps p (raise e : Act σ ε α) := fun _ ↦ rfl

theorem keeps_get (p : σ → γ) : Keeps p (get : Act σ ε σ) := fun _ ↦ rfl

theorem keeps_ofExcept (p : σ → γ) (r : Except ε α) : Keeps p (ofExcept r : Act σ ε α) :=
  fun _ ↦ rfl

theorem keeps_modify {p : σ → γ} {f : σ → σ} (h : ∀ s, p (f s) = p s) :
    Keeps p (modify f : Act σ ε PUnit) := h

theorem keeps_zoom {τ : Type u} {p : τ → γ} {view : τ → σ} {put : σ → τ → τ} {m : Act σ ε α}
    (h : ∀ s t, p (put s t) = p t) : Keeps p (zoom view put m) := fun t ↦ h _ t

theorem Keeps.bind {p : σ → γ} {m : Act σ ε α} {f : α → Act σ ε β} (hm : Keeps p m)
    (hf : ∀ a, Keeps p (f a)) : Keeps p (m >>= f) := by
  intro s
  have h := hm s
  rw [bind_apply]
  rcases hms : m s with ⟨_ | a, t⟩ <;> rw [hms] at h
  · exact h
  · exact (hf a t).trans h

theorem Keeps.handle {p : σ → γ} {m : Act σ ε α} {h : ε → Act σ ε α} (hm : Keeps p m)
    (hh : ∀ e, Keeps p (h e)) : Keeps p (handle m h) := by
  intro s
  have hs := hm s
  unfold Act.handle
  rcases hms : m s with ⟨e | _, t⟩ <;> rw [hms] at hs
  · exact (hh e t).trans hs
  · exact hs

theorem Keeps.ite {p : σ → γ} {c : Prop} [Decidable c] {m m' : Act σ ε α} (h : Keeps p m)
    (h' : Keeps p m') : Keeps p (if c then m else m') := by
  split
  · exact h
  · exact h'

/-! ## Logs -/

section

variable {ω : Type u}

/-- Every run of `m` appends to the log `view` of the state, and only what satisfies `P`. -/
def Emits (view : σ → List ω) (P : ω → Prop) (m : Act σ ε α) : Prop :=
  ∀ s, ∃ sent, view (m s).2 = view s ++ sent ∧ ∀ w ∈ sent, P w

variable {view : σ → List ω} {P : ω → Prop}

theorem Keeps.emits {m : Act σ ε α} (h : Keeps view m) : Emits view P m :=
  fun s ↦ ⟨[], by rw [h s, List.append_nil], nofun⟩

theorem Emits.bind {m : Act σ ε α} {f : α → Act σ ε β} (hm : Emits view P m)
    (hf : ∀ a, Emits view P (f a)) : Emits view P (m >>= f) := by
  intro s
  obtain ⟨sent, hs, hP⟩ := hm s
  rw [bind_apply]
  rcases hms : m s with ⟨_ | a, t⟩ <;> rw [hms] at hs
  · exact ⟨sent, hs, hP⟩
  · obtain ⟨sent', hs', hP'⟩ := hf a t
    refine ⟨sent ++ sent', ?_, ?_⟩
    · rw [← List.append_assoc, ← hs]
      exact hs'
    · intro w hw
      exact (List.mem_append.mp hw).elim (hP w) (hP' w)

theorem Emits.ite {c : Prop} [Decidable c] {m m' : Act σ ε α} (h : Emits view P m)
    (h' : Emits view P m') : Emits view P (if c then m else m') := by
  split
  · exact h
  · exact h'

end

end Act

end FeedgateFetcher.Logic
