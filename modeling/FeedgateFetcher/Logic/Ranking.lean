import Mathlib.Data.List.Sort
import FeedgateFetcher.Logic.Table

/-!
# Rankings

The rows of a table by their keys, greatest key first.  In a keyed table the ranking is
strict and the only strict arrangement, so it can be compared with a selection or a
prefix of the rows.
-/

universe u v

namespace FeedgateFetcher.Logic.Table

variable {ρ : Type u} {κ : Type v} [LinearOrder κ] (key : ρ → κ)

/-- The rows, greatest key first. -/
def ranked (rows : List ρ) : List ρ := rows.insertionSort fun r s ↦ key s ≤ key r

/-- The first `k` rows of the ranking. -/
def leading (k : Nat) (rows : List ρ) : List ρ := (ranked key rows).take k

variable {key} {rows rows' : List ρ} {r s : ρ} {k : Nat}

instance instTotalRanking : Std.Total fun r s : ρ ↦ key s ≤ key r :=
  ⟨fun r s ↦ le_total (key s) (key r)⟩

instance instIsTransRanking : IsTrans ρ fun r s ↦ key s ≤ key r := ⟨fun _ _ _ h h' ↦ h'.trans h⟩

theorem ranked_perm (key : ρ → κ) (rows : List ρ) : (ranked key rows).Perm rows :=
  List.perm_insertionSort _ rows

theorem mem_ranked : r ∈ ranked key rows ↔ r ∈ rows := (ranked_perm key rows).mem_iff

theorem length_ranked (key : ρ → κ) (rows : List ρ) : (ranked key rows).length = rows.length :=
  (ranked_perm key rows).length_eq

/-- The ranking of a keyed table is strict. -/
theorem Keyed.ranked_pairwise (h : Keyed key rows) :
    (ranked key rows).Pairwise fun r s ↦ key s < key r := by
  have hle := List.pairwise_insertionSort (fun r s : ρ ↦ key s ≤ key r) rows
  have hne := List.pairwise_map.mp (h.perm (ranked_perm key rows))
  refine (hle.and hne).imp ?_
  rintro r s ⟨hrs, hrs'⟩
  exact lt_of_le_of_ne hrs (Ne.symm hrs')

/-- There is one strict arrangement of the rows. -/
theorem eq_of_strict (hp : rows.Perm rows') (h : rows.Pairwise fun r s ↦ key s < key r)
    (h' : rows'.Pairwise fun r s ↦ key s < key r) : rows = rows' := by
  refine hp.eq_of_pairwise ?_ h h'
  intro r s _ _ hrs hsr
  exact absurd hrs (lt_asymm hsr)

theorem length_leading (key : ρ → κ) (k : Nat) (rows : List ρ) :
    (leading key k rows).length = min k rows.length := by
  rw [leading, List.length_take, length_ranked]

/-- A selection of rows is ranked like the rows. -/
theorem Keyed.ranked_filter (h : Keyed key rows) (p : ρ → Bool) :
    ranked key (rows.filter p) = (ranked key rows).filter p :=
  eq_of_strict ((ranked_perm key _).trans ((ranked_perm key rows).symm.filter p))
    (h.sublist List.filter_sublist).ranked_pairwise (h.ranked_pairwise.filter p)

/-- The first rows stay the first ones as long as they are all selected. -/
theorem Keyed.leading_filter (h : Keyed key rows) {p : ρ → Bool}
    (hp : ∀ r ∈ leading key k rows, p r = true) :
    leading key k (rows.filter p) = leading key k rows := by
  unfold leading at hp ⊢
  rw [h.ranked_filter]
  generalize ranked key rows = l at hp
  conv_lhs => rw [← List.take_append_drop k l, List.filter_append, List.filter_eq_self.mpr hp]
  rcases le_total k l.length with hk | hk
  · exact List.take_left' (List.length_take_of_le hk)
  · rw [List.drop_eq_nil_of_le hk, List.filter_nil, List.append_nil, List.take_take, min_self]

/-! ## Prefixes -/

/-- Every row among the first `k` is ranked above every later one. -/
def LeadsAt (key : ρ → κ) (k : Nat) (rows : List ρ) : Prop :=
  ∀ r ∈ rows.take k, ∀ s ∈ rows.drop k, key s < key r

instance (k : Nat) (rows : List ρ) : Decidable (LeadsAt key k rows) :=
  inferInstanceAs (Decidable (∀ r ∈ _, ∀ s ∈ _, _))

/-- The first `k` rows are the leading ones exactly when the table is divided there. -/
theorem Keyed.take_perm_leading_iff (h : Keyed key rows) :
    (rows.take k).Perm (leading key k rows) ↔ LeadsAt key k rows := by
  have hdrop : ∀ s ∈ rows.drop k, s ∉ rows.take k := fun s hs ht ↦
    List.disjoint_take_drop h.nodup (le_refl k) ht hs
  constructor
  · intro hp r hr s hs
    have hr' := hp.mem_iff.mp hr
    have hs' : s ∈ (ranked key rows).drop k := by
      have hmem : s ∈ (ranked key rows).take k ++ (ranked key rows).drop k := by
        rw [List.take_append_drop]
        exact mem_ranked.mpr (List.mem_of_mem_drop hs)
      exact (List.mem_append.mp hmem).resolve_left fun ht ↦ hdrop s hs (hp.mem_iff.mpr ht)
    have hpair := h.ranked_pairwise
    rw [← List.take_append_drop k (ranked key rows)] at hpair
    exact (List.pairwise_append.mp hpair).2.2 r hr' s hs'
  · intro hlead
    have htake : Keyed key (rows.take k) := h.sublist (List.take_sublist k rows)
    have hrest : Keyed key (rows.drop k) := h.sublist (List.drop_sublist k rows)
    have hsplit : ranked key rows = ranked key (rows.take k) ++ ranked key (rows.drop k) := by
      refine eq_of_strict ?_ h.ranked_pairwise ?_
      · refine (ranked_perm key rows).trans ?_
        have happ := (ranked_perm key (rows.take k)).append (ranked_perm key (rows.drop k))
        rw [List.take_append_drop] at happ
        exact happ.symm
      · refine List.pairwise_append.mpr ⟨htake.ranked_pairwise, hrest.ranked_pairwise, ?_⟩
        intro r hr s hs
        exact hlead r (mem_ranked.mp hr) s (mem_ranked.mp hs)
    have hprefix : (ranked key rows).take k = ranked key (rows.take k) := by
      rcases le_total k rows.length with hk | hk
      · have hlen : (ranked key (rows.take k)).length = k := by
          rw [length_ranked, List.length_take, min_eq_left hk]
        rw [hsplit, List.take_left' hlen]
      · have hall : (ranked key rows).length ≤ k := (length_ranked key rows).trans_le hk
        rw [List.take_of_length_le hk, List.take_of_length_le hall]
    rw [leading, hprefix]
    exact (ranked_perm key _).symm

/-- A table is arranged strictly when it is divided everywhere. -/
theorem pairwise_iff_leadsAt :
    (rows.Pairwise fun r s ↦ key s < key r) ↔ ∀ k ≤ rows.length, LeadsAt key k rows := by
  constructor
  · intro h k _
    rw [← List.take_append_drop k rows] at h
    exact (List.pairwise_append.mp h).2.2
  · intro h
    induction rows with
    | nil => exact .nil
    | cons r rows ih =>
        refine .cons ?_ (ih fun k hk s hs ↦ ?_)
        · exact h 1 (Nat.succ_le_succ (Nat.zero_le _)) r List.mem_cons_self
        · exact h (k + 1) (Nat.succ_le_succ hk) s (List.mem_cons_of_mem r hs)

end FeedgateFetcher.Logic.Table
