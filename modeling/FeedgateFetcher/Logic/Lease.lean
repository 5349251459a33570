import Mathlib.Data.List.Perm.Subperm
import Mathlib.Order.Lattice
import FeedgateFetcher.Logic.Transition

/-!
# Leases

A pool of resources that agents take for a limited time.  A resource says at
which instants it is available; taking it closes it until a deadline that
depends on the instant of the grant only.  When every holder gives its resources
back before their deadlines, no resource is ever held twice.

Nothing is said about how a resource closes itself, so a resource may decide its
availability by whatever data it has.
-/

universe u v w

namespace FeedgateFetcher.Logic

variable {ρ : Type u} {α : Type v} {τ : Type w} [LinearOrder τ]

/-- A resource in the hands of an agent since some instant. -/
structure Grant (ρ : Type u) (α : Type v) (τ : Type w) where
  resource : ρ
  agent : α
  since : τ

/-- The availability of the resources, and what is held. -/
structure LeasePool (ρ : Type u) (α : Type v) (τ : Type w) where
  available : ρ → τ → Prop
  held : List (Grant ρ α τ)
  clock : τ

namespace LeasePool

/-- The steps of a pool, each at an instant of its own. -/
inductive Step (deadline : τ → τ) (s : LeasePool ρ α τ) : τ → LeasePool ρ α τ → Prop
  /-- An agent takes available resources, which closes them until the deadline. -/
  | grant {now : τ} {agent : α} {rs : List ρ} {available : ρ → τ → Prop} (hclock : s.clock ≤ now)
    (hnodup : rs.Nodup) (havail : ∀ r ∈ rs, s.available r now)
    (hclosed : ∀ r ∈ rs, ∀ t, now ≤ t → t < deadline now → ¬available r t)
    (hrest : ∀ r, r ∉ rs → available r = s.available r) :
    Step deadline s now ⟨available, s.held ++ rs.map fun r ↦ ⟨r, agent, now⟩, now⟩
  /-- Grants end; only their resources may change. -/
  | release {now : τ} {kept : List (Grant ρ α τ)} {available : ρ → τ → Prop}
    (hclock : s.clock ≤ now) (hkept : kept.Sublist s.held)
    (hrest : ∀ g ∈ kept, available g.resource = s.available g.resource) :
    Step deadline s now ⟨available, kept, now⟩

/-- Every grant is given back before its deadline: what is held at an instant is
not yet due. -/
def Timely (deadline : τ → τ) (s : LeasePool ρ α τ) (now : τ) : Prop :=
  ∀ g ∈ s.held, now < deadline g.since

/-- A step in a pool whose agents are in time. -/
def TimelyStep (deadline : τ → τ) (s : LeasePool ρ α τ) (now : τ) (s' : LeasePool ρ α τ) : Prop :=
  s.Timely deadline now ∧ s.Step deadline now s'

/-- Nothing is held twice, and what is held is closed until its deadline. -/
structure Exclusive (deadline : τ → τ) (s : LeasePool ρ α τ) : Prop where
  nodup : (s.held.map Grant.resource).Nodup
  since_le : ∀ g ∈ s.held, g.since ≤ s.clock
  closed : ∀ g ∈ s.held, ∀ t, g.since ≤ t → t < deadline g.since → ¬s.available g.resource t

variable {deadline : τ → τ} {s s' : LeasePool ρ α τ} {now : τ}

/-- What is available is not held. -/
theorem Exclusive.notMem_held (h : s.Exclusive deadline) (ht : s.Timely deadline now)
    (hclock : s.clock ≤ now) {r : ρ} (hr : s.available r now) :
    r ∉ s.held.map Grant.resource := by
  intro hmem
  obtain ⟨g, hg, rfl⟩ := List.mem_map.mp hmem
  exact h.closed g hg now ((h.since_le g hg).trans hclock) (ht g hg) hr

theorem Exclusive.step (h : s.Exclusive deadline) (hs : s.TimelyStep deadline now s') :
    s'.Exclusive deadline := by
  obtain ⟨ht, hs⟩ := hs
  cases hs with
  | @grant agent rs available hclock hnodup havail hclosed hrest =>
      have hfresh : ∀ r ∈ rs, r ∉ s.held.map Grant.resource := fun r hr ↦
        h.notMem_held ht hclock (havail r hr)
      have hmap : (rs.map fun r ↦ (⟨r, agent, now⟩ : Grant ρ α τ)).map Grant.resource = rs := by
        rw [List.map_map]
        exact List.map_id rs
      refine ⟨?_, ?_, ?_⟩
      · rw [List.map_append, hmap]
        refine List.nodup_append.mpr ⟨h.nodup, hnodup, ?_⟩
        rintro r hr _ hr' rfl
        exact hfresh r hr' hr
      · intro g hg
        rcases List.mem_append.mp hg with hg | hg
        · exact (h.since_le g hg).trans hclock
        · obtain ⟨r, -, rfl⟩ := List.mem_map.mp hg
          exact le_refl now
      · intro g hg t hle hlt
        rcases List.mem_append.mp hg with hg | hg
        · have hne : g.resource ∉ rs := fun hr ↦ hfresh _ hr (List.mem_map_of_mem hg)
          show ¬available g.resource t
          rw [hrest _ hne]
          exact h.closed g hg t hle hlt
        · obtain ⟨r, hr, rfl⟩ := List.mem_map.mp hg
          exact hclosed r hr t hle hlt
  | @release kept available hclock hkept hrest =>
      refine ⟨h.nodup.sublist (hkept.map _), fun g hg ↦ ?_, fun g hg t hle hlt ↦ ?_⟩
      · exact (h.since_le g (hkept.subset hg)).trans hclock
      · show ¬available g.resource t
        rw [hrest g hg]
        exact h.closed g (hkept.subset hg) t hle hlt

/-- Leases are exclusive in every run whose agents are in time. -/
theorem Exclusive.run {ts : List τ} (h : s.Exclusive deadline)
    (hrun : Run (TimelyStep deadline) s ts s') : s'.Exclusive deadline :=
  hrun.invariant (P := Exclusive deadline) (fun _ _ _ ht hs ↦ ht.step hs) h

end LeasePool

end FeedgateFetcher.Logic
