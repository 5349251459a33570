import Mathlib.Order.Lattice
import FeedgateFetcher.Logic.Table

/-!
# Serial keys and references

Tables whose keys come from a sequence, and references between them.  `Evolves` is everything that
transactions can make of such a table: rows are revised or deleted, and new ones are numbered by
the sequence.  It is closed under composition, so what it says of one step holds of a run: a key
never denotes another row, and a row that has been deleted does not come back.
-/

universe u v w

namespace FeedgateFetcher.Logic.Table

variable {ρ : Type u} {κ : Type v} {χ : Type w}

section

variable [LinearOrder κ] (key : ρ → κ)

/-- The keys of the rows come from a sequence that has got to `next`. -/
structure Serial (next : κ) (rows : List ρ) : Prop where
  keyed : Keyed key rows
  lt : ∀ r ∈ rows, key r < next

/-- What `R` relates is a row and a later state of it; the table may have become `rows'`. -/
structure Evolves (R : ρ → ρ → Prop) (next : κ) (rows : List ρ) (next' : κ) (rows' : List ρ) :
    Prop where
  next_le : next ≤ next'
  serial : Serial key next rows → Serial key next' rows'
  descends : ∀ r' ∈ rows', (∃ r ∈ rows, key r' = key r ∧ R r r') ∨ next ≤ key r'

variable {key} {R : ρ → ρ → Prop} {next next' next'' : κ} {rows rows' rows'' : List ρ} {r r' : ρ}

theorem Serial.nil (key : ρ → κ) (next : κ) : Serial key next [] := ⟨.nil key, nofun⟩

theorem Serial.mono (h : Serial key next rows) (hle : next ≤ next') : Serial key next' rows :=
  ⟨h.keyed, fun r hr ↦ (h.lt r hr).trans_le hle⟩

namespace Evolves

theorem refl (hR : ∀ r, R r r) (next : κ) (rows : List ρ) : Evolves key R next rows next rows :=
  ⟨le_refl next, fun h ↦ h, fun r hr ↦ .inl ⟨r, hr, rfl, hR r⟩⟩

theorem trans (hR : ∀ a b c, R a b → R b c → R a c) (h : Evolves key R next rows next' rows')
    (h' : Evolves key R next' rows' next'' rows'') : Evolves key R next rows next'' rows'' := by
  refine ⟨h.next_le.trans h'.next_le, fun hs ↦ h'.serial (h.serial hs), fun r hr ↦ ?_⟩
  rcases h'.descends r hr with ⟨b, hb, hkey, hbr⟩ | hle
  · rcases h.descends b hb with ⟨a, ha, hkey', hab⟩ | hle
    · exact .inl ⟨a, ha, hkey.trans hkey', hR a b r hab hbr⟩
    · exact .inr (hkey ▸ hle)
  · exact .inr (h.next_le.trans hle)

/-- The sequence advances without an insertion. -/
theorem skip (hR : ∀ r, R r r) (rows : List ρ) (hle : next ≤ next') :
    Evolves key R next rows next' rows :=
  ⟨hle, fun h ↦ h.mono hle, fun r hr ↦ .inl ⟨r, hr, rfl, hR r⟩⟩

theorem delete (hR : ∀ r, R r r) (next : κ) (h : rows'.Sublist rows) :
    Evolves key R next rows next rows' :=
  ⟨le_refl next, fun hs ↦ ⟨hs.keyed.sublist h, fun r hr ↦ hs.lt r (h.subset hr)⟩,
    fun r hr ↦ .inl ⟨r, h.subset hr, rfl, hR r⟩⟩

theorem revise {u : ρ → ρ} (hkey : ∀ r, key (u r) = key r) (hR : ∀ r ∈ rows, R r (u r))
    (next : κ) : Evolves key R next rows next (rows.map u) := by
  refine ⟨le_refl next, fun hs ↦ ⟨hs.keyed.map hkey, ?_⟩, ?_⟩
  · rintro r' hr'
    obtain ⟨r, hr, rfl⟩ := List.mem_map.mp hr'
    rw [hkey]
    exact hs.lt r hr
  · rintro r' hr'
    obtain ⟨r, hr, rfl⟩ := List.mem_map.mp hr'
    exact .inl ⟨r, hr, hkey r, hR r hr⟩

theorem insert (hR : ∀ r, R r r) (hkey : key r = next) (hlt : next < next') :
    Evolves key R next rows next' (rows ++ [r]) := by
  refine ⟨hlt.le, fun hs ↦ ⟨hs.keyed.append_single fun o ho ↦ ?_, fun o ho ↦ ?_⟩, fun o ho ↦ ?_⟩
  · rw [hkey]
    exact (hs.lt o ho).ne
  · rcases List.mem_append.mp ho with ho | ho
    · exact (hs.lt o ho).trans hlt
    · rw [List.mem_singleton.mp ho, hkey]
      exact hlt
  · rcases List.mem_append.mp ho with ho | ho
    · exact .inl ⟨o, ho, rfl, hR o⟩
    · rw [List.mem_singleton.mp ho]
      exact .inr hkey.ge

/-- A key denotes one row, in whatever state. -/
theorem same_of_key (h : Evolves key R next rows next' rows') (hs : Serial key next rows)
    (hr : r ∈ rows) (hr' : r' ∈ rows') (hkey : key r = key r') : R r r' := by
  rcases h.descends r' hr' with ⟨o, ho, hkey', hR⟩ | hle
  · rwa [hs.keyed.eq_of_key hr ho (hkey.trans hkey')]
  · exact absurd (hs.lt r hr) (not_lt.mpr (hkey ▸ hle))

/-- A key that has been used and is not in the table is never used again. -/
theorem gone (h : Evolves key R next rows next' rows') {k : κ} (hk : k < next)
    (hgone : ∀ r ∈ rows, key r ≠ k) : ∀ r ∈ rows', key r ≠ k := by
  rintro r' hr' rfl
  rcases h.descends r' hr' with ⟨r, hr, hkey, -⟩ | hle
  · exact hgone r hr hkey.symm
  · exact absurd hk (not_lt.mpr hle)

end Evolves

end

/-! ## References -/

/-- Every row of `children` refers to a row of `parents`. -/
def Refers (ref : χ → κ) (key : ρ → κ) (children : List χ) (parents : List ρ) : Prop :=
  ∀ c ∈ children, ∃ p ∈ parents, key p = ref c

instance [DecidableEq κ] (ref : χ → κ) (key : ρ → κ) (children : List χ) (parents : List ρ) :
    Decidable (Refers ref key children parents) :=
  inferInstanceAs (Decidable (∀ c ∈ children, ∃ p ∈ parents, key p = ref c))

namespace Refers

variable {ref : χ → κ} {key : ρ → κ} {children children' : List χ} {parents parents' : List ρ}

theorem of_subset (h : Refers ref key children parents) (hsub : children' ⊆ children) :
    Refers ref key children' parents := fun c hc ↦ h c (hsub hc)

/-- No key of a parent has been given up. -/
theorem of_keys (h : Refers ref key children parents)
    (hkeys : ∀ p ∈ parents, ∃ p' ∈ parents', key p' = key p) :
    Refers ref key children parents' := by
  intro c hc
  obtain ⟨p, hp, hpc⟩ := h c hc
  obtain ⟨p', hp', hkey⟩ := hkeys p hp
  exact ⟨p', hp', hkey.trans hpc⟩

/-- `ON DELETE CASCADE`. -/
theorem cascade [DecidableEq κ] (h : Refers ref key children parents) (k : κ) :
    Refers ref key (children.filter fun c ↦ ref c ≠ k) (parents.filter fun p ↦ key p ≠ k) := by
  intro c hc
  obtain ⟨hc, hne⟩ := List.mem_filter.mp hc
  obtain ⟨p, hp, hpc⟩ := h c hc
  refine ⟨p, List.mem_filter.mpr ⟨hp, ?_⟩, hpc⟩
  rw [hpc]
  exact hne

end Refers

end FeedgateFetcher.Logic.Table
