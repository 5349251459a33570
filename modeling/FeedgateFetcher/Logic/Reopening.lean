import FeedgateFetcher.Logic.Lease

/-!
# Reopened leases

A lease pool whose resources can also be reopened from outside, before the grants of them are due.
Then a resource can be held more than once, but every additional holder takes a reopening: as long
as the resource is closed until its grants are due, or none is left, the next one takes none.
-/

universe u v w

namespace FeedgateFetcher.Logic.LeasePool

variable {ρ : Type u} {α : Type v} {τ : Type w} [DecidableEq ρ] [LinearOrder τ]

/-- The grants of a resource. -/
def holders (s : LeasePool ρ α τ) (r : ρ) : List (Grant ρ α τ) :=
  s.held.filter fun g ↦ g.resource = r

/-- The resource is available before some grant of it is due. -/
def Reopened (deadline : τ → τ) (s : LeasePool ρ α τ) (r : ρ) : Prop :=
  ∃ g ∈ s.holders r, ∃ t < deadline g.since, s.available r t

/-- Up to `n` reopenings of the resource account for its holders, and for the one that can come
before they are due. -/
structure Lent (deadline : τ → τ) (s : LeasePool ρ α τ) (r : ρ) (n : ℕ) : Prop where
  since_le : ∀ g ∈ s.holders r, g.since ≤ s.clock
  length_le : (s.holders r).length ≤ n + 1
  spare : s.Reopened deadline r → (s.holders r).length ≤ n

namespace Lent

variable {deadline : τ → τ} {s s' : LeasePool ρ α τ} {r : ρ} {n : ℕ}

theorem of_nil (h : s.holders r = []) (n : ℕ) : s.Lent deadline r n := by
  refine ⟨fun g hg ↦ ?_, ?_, fun _ ↦ ?_⟩
  · rw [h] at hg
    cases hg
  · rw [h]
    exact Nat.zero_le _
  · rw [h]
    exact Nat.zero_le _

/-- Holders leave, and the resource is not available when it has not been. -/
theorem leave (h : s.Lent deadline r n) (hheld : (s'.holders r).Sublist (s.holders r))
    (hclock : s.clock ≤ s'.clock) (havail : ∀ t, s'.available r t → s.available r t) :
    s'.Lent deadline r n := by
  refine ⟨fun g hg ↦ (h.since_le g (hheld.subset hg)).trans hclock,
    hheld.length_le.trans h.length_le, ?_⟩
  rintro ⟨g, hg, t, ht, hopen⟩
  exact hheld.length_le.trans (h.spare ⟨g, hheld.subset hg, t, ht, havail t hopen⟩)

/-- A holder that leaves may reopen the resource. -/
theorem give_back (h : s.Lent deadline r n) (hheld : (s'.holders r).Sublist (s.holders r))
    (hlength : (s'.holders r).length < (s.holders r).length) (hclock : s.clock ≤ s'.clock) :
    s'.Lent deadline r n := by
  have hle := h.length_le
  exact ⟨fun g hg ↦ (h.since_le g (hheld.subset hg)).trans hclock, by omega, fun _ ↦ by omega⟩

/-- The resource is reopened. -/
theorem reopen (h : s.Lent deadline r n) (hheld : (s'.holders r).Sublist (s.holders r))
    (hclock : s.clock ≤ s'.clock) : s'.Lent deadline r (n + 1) := by
  have hle := hheld.length_le.trans h.length_le
  exact ⟨fun g hg ↦ (h.since_le g (hheld.subset hg)).trans hclock, by omega, fun _ ↦ hle⟩

/-- The resource is taken while it is available, and is closed until the new grant is due. -/
theorem take (h : s.Lent deadline r n) (hmono : Monotone deadline) {g : Grant ρ α τ}
    (hholders : s'.holders r = s.holders r ++ [g]) (hsince : g.since = s'.clock)
    (hclock : s.clock ≤ s'.clock) (htimely : s.Timely deadline s'.clock)
    (havail : s.available r s'.clock) (hclosed : ∀ t < deadline s'.clock, ¬s'.available r t) :
    s'.Lent deadline r n := by
  have hsince_le : ∀ o ∈ s'.holders r, o.since ≤ s'.clock := by
    intro o ho
    rw [hholders] at ho
    rcases List.mem_append.mp ho with ho | ho
    · exact (h.since_le o ho).trans hclock
    · rw [List.mem_singleton.mp ho, hsince]
  refine ⟨hsince_le, ?_, ?_⟩
  · rw [hholders, List.length_append, List.length_singleton, Nat.add_le_add_iff_right]
    by_cases hnil : s.holders r = []
    · rw [hnil]
      exact Nat.zero_le n
    · obtain ⟨o, ho⟩ := List.exists_mem_of_ne_nil _ hnil
      exact h.spare ⟨o, ho, s'.clock, htimely o (List.mem_filter.mp ho).1, havail⟩
  · rintro ⟨o, ho, t, ht, hopen⟩
    exact absurd hopen (hclosed t (ht.trans_le (hmono (hsince_le o ho))))

end Lent

end FeedgateFetcher.Logic.LeasePool
