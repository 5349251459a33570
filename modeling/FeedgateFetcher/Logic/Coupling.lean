import FeedgateFetcher.Logic.Effect

/-!
# Coupled computations

Two computations that go from each state to the same state, with related results or the same
exception.  The rules go through both of them at once; what is coupled by equality is equal.
-/

universe u

namespace FeedgateFetcher.Logic

variable {σ ε ε' α α' β β' τ : Type u}

/-- Both return, with related results, or both raise the same exception. -/
inductive Coupled (R : α → α' → Prop) : Except ε α → Except ε α' → Prop
  | ok {a : α} {a' : α'} (h : R a a') : Coupled R (.ok a) (.ok a')
  | error (e : ε) : Coupled R (.error e) (.error e)

theorem Coupled.eq {r r' : Except ε α} (h : Coupled Eq r r') : r = r' := by
  cases h with
  | ok h => rw [h]
  | error e => rfl

theorem Coupled.refl {R : α → α → Prop} (hR : ∀ a, R a a) (r : Except ε α) : Coupled R r r := by
  cases r with
  | ok a => exact .ok (hR a)
  | error e => exact .error e

theorem Coupled.mapError {R : α → α' → Prop} {r : Except ε α} {r' : Except ε α'}
    (h : Coupled R r r') (f : ε → ε') : Coupled R (r.mapError f) (r'.mapError f) := by
  cases h with
  | ok h => exact .ok h
  | error e => exact .error (f e)

namespace Act

/-- From each state, `m` and `m'` end in one state, with coupled results. -/
def Couples (R : α → α' → Prop) (m : Act σ ε α) (m' : Act σ ε α') : Prop :=
  ∀ s, Coupled R (m s).1 (m' s).1 ∧ (m s).2 = (m' s).2

variable {R : α → α' → Prop} {S : β → β' → Prop} {m : Act σ ε α} {m' : Act σ ε α'}

theorem Couples.eq {m m' : Act σ ε α} (h : Couples Eq m m') : m = m' := by
  funext s
  exact Prod.ext (h s).1.eq (h s).2

theorem Couples.refl (m : Act σ ε α) : Couples Eq m m :=
  fun s ↦ ⟨.refl (fun _ ↦ rfl) (m s).1, rfl⟩

theorem couples_pure {a : α} {a' : α'} (h : R a a') :
    Couples R (pure a : Act σ ε α) (pure a') := fun _ ↦ ⟨.ok h, rfl⟩

theorem couples_raise (e : ε) : Couples R (raise e : Act σ ε α) (raise e) :=
  fun _ ↦ ⟨.error e, rfl⟩

theorem couples_ofExcept {r : Except ε α} {r' : Except ε α'} (h : Coupled R r r') :
    Couples R (ofExcept r : Act σ ε α) (ofExcept r') := fun _ ↦ ⟨h, rfl⟩

theorem Couples.bind {f : α → Act σ ε β} {f' : α' → Act σ ε β'} (hm : Couples R m m')
    (hf : ∀ a a', R a a' → Couples S (f a) (f' a')) : Couples S (m >>= f) (m' >>= f') := by
  intro s
  obtain ⟨hr, hs⟩ := hm s
  rw [bind_apply, bind_apply]
  rcases hms : m s with ⟨r, t⟩
  rcases hms' : m' s with ⟨r', t'⟩
  rw [hms, hms'] at hr hs
  cases hs
  cases hr with
  | ok h => exact hf _ _ h t
  | error e => exact ⟨.error e, rfl⟩

/-- What both begin with needs no coupling. -/
theorem couples_bind {f : α → Act σ ε β} {f' : α → Act σ ε β'} (m : Act σ ε α)
    (hf : ∀ a, Couples S (f a) (f' a)) : Couples S (m >>= f) (m >>= f') := by
  refine (Couples.refl m).bind ?_
  rintro a _ rfl
  exact hf a

theorem Couples.handle {h : ε → Act σ ε α} {h' : ε → Act σ ε α'} (hm : Couples R m m')
    (hh : ∀ e, Couples R (h e) (h' e)) : Couples R (handle m h) (handle m' h') := by
  intro s
  obtain ⟨hr, hs⟩ := hm s
  rcases hms : m s with ⟨r, t⟩
  rcases hms' : m' s with ⟨r', t'⟩
  rw [hms, hms'] at hr hs
  cases hs
  cases hr with
  | ok hR =>
      rw [handle_of_ok hms, handle_of_ok hms']
      exact ⟨.ok hR, rfl⟩
  | error e =>
      rw [handle_of_error hms, handle_of_error hms']
      exact hh e t

theorem Couples.mapError (h : Couples R m m') (f : ε → ε') :
    Couples R (mapError f m) (mapError f m') := fun s ↦ ⟨(h s).1.mapError f, (h s).2⟩

theorem Couples.zoom {view : τ → σ} {put : σ → τ → τ} (h : Couples R m m') :
    Couples R (zoom view put m) (zoom view put m') :=
  fun t ↦ ⟨(h (view t)).1, congrArg (put · t) (h (view t)).2⟩

theorem Couples.ite {c : Prop} [Decidable c] {n : Act σ ε α} {n' : Act σ ε α'}
    (hm : Couples R m m') (hn : Couples R n n') :
    Couples R (if c then m else n) (if c then m' else n') := by
  split
  · exact hm
  · exact hn

end Act

end FeedgateFetcher.Logic
