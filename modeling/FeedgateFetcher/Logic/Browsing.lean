import FeedgateFetcher.Logic.Pagination

/-!
# Browsing a table that changes

Pages read one after another, each below the last row of the one before, with a limit
and a table of its own for every request.  All that is shown is in one strict order,
whatever happens to the table; what stays in it until the end is shown once.
-/

universe u v

namespace FeedgateFetcher.Logic.Table

variable {ρ : Type u} {κ : Type v} [LinearOrder κ]

/-- A limit, and the rows that the request meets. -/
abbrev Request (ρ : Type u) := Nat × List ρ

/-- The pages from one cursor to another; the last one is `none` at the end of the table. -/
inductive Browses (key : ρ → κ) : Option κ → List (Request ρ) → List (List ρ) → Option κ → Prop
  | single {cursor next : Option κ} {limit : Nat} {rows items : List ρ} :
    page key limit cursor rows = (items, next) →
    Browses key cursor [(limit, rows)] [items] next
  | cons {cursor next : Option κ} {limit : Nat} {rows items : List ρ} {c : κ}
    {requests : List (Request ρ)} {pages : List (List ρ)} :
    page key limit cursor rows = (items, some c) → Browses key (some c) requests pages next →
    Browses key cursor ((limit, rows) :: requests) (items :: pages) next

variable {key : ρ → κ} {limit : Nat} {cursor next : Option κ} {rows items : List ρ} {c k : κ}
  {requests : List (Request ρ)} {pages : List (List ρ)}

theorem mem_of_mem_page {r : ρ} (hp : page key limit cursor rows = (items, next))
    (hr : r ∈ items) : r ∈ rows ∧ Below cursor (key r) := by
  rw [page_eq] at hp
  cases hp
  exact mem_beyond.mp (mem_ranked.mp (List.mem_of_mem_take hr))

theorem page_pairwise (hkeyed : Keyed key rows) (hp : page key limit cursor rows = (items, next)) :
    items.Pairwise fun r s ↦ key s < key r := by
  rw [page_eq] at hp
  cases hp
  exact (hkeyed.beyond cursor).ranked_pairwise.sublist (List.take_sublist _ _)

/-- Below a cursor that is itself below another. -/
theorem Below.trans (hc : Below cursor c) (hk : Below (some c) k) : Below cursor k :=
  fun d hd ↦ (hk c rfl).trans (hc d hd)

namespace Browses

/-- Every page shows rows of its own table. -/
theorem forall₂_mem (h : Browses key cursor requests pages next) :
    List.Forall₂ (fun (request : Request ρ) items ↦ ∀ r ∈ items, r ∈ request.2) requests pages := by
  induction h with
  | single hp => exact .cons (fun r hr ↦ (mem_of_mem_page hp hr).1) .nil
  | cons hp _ ih => exact .cons (fun r hr ↦ (mem_of_mem_page hp hr).1) ih

/-- All that is shown is below the first cursor, and in one strict order. -/
theorem pairwise (h : Browses key cursor requests pages next)
    (hkeyed : ∀ request ∈ requests, Keyed key request.2) :
    (∀ r ∈ pages.flatten, Below cursor (key r)) ∧
      pages.flatten.Pairwise fun r s ↦ key s < key r := by
  induction h with
  | @single cursor next limit rows items hp =>
      rw [List.flatten_cons, List.flatten_nil, List.append_nil]
      exact ⟨fun r hr ↦ (mem_of_mem_page hp hr).2,
        page_pairwise (hkeyed _ List.mem_cons_self) hp⟩
  | @cons cursor next limit rows items c requests pages hp _ ih =>
      have hrows : Keyed key rows := hkeyed _ List.mem_cons_self
      obtain ⟨hbelow, hpairwise⟩ :=
        ih fun request hmem ↦ hkeyed request (List.mem_cons_of_mem _ hmem)
      obtain ⟨-, hdescends, hpage, -⟩ := page_next cursor hrows (congrArg Prod.snd hp)
      rw [hp] at hpage
      rw [List.flatten_cons]
      constructor
      · intro r hr
        rcases List.mem_append.mp hr with hr | hr
        · exact (mem_of_mem_page hp hr).2
        · exact hdescends.trans (hbelow r hr)
      · refine List.pairwise_append.mpr ⟨page_pairwise hrows hp, hpairwise, ?_⟩
        intro r hr s hs
        exact (hbelow s hs c rfl).trans_le (hpage r hr)

/-- What stays in the table is shown by the time the table is over. -/
theorem exists_shown (h : Browses key cursor requests pages next) (hnext : next = none)
    (hkeyed : ∀ request ∈ requests, Keyed key request.2)
    (hlimit : ∀ request ∈ requests, 1 ≤ request.1)
    (hk : ∀ request ∈ requests, ∃ r ∈ request.2, key r = k) (hbelow : Below cursor k) :
    ∃ r ∈ pages.flatten, key r = k := by
  induction h with
  | @single cursor next limit rows items hp =>
      have hshows := page_shows_iff cursor (hkeyed _ List.mem_cons_self)
        (hlimit _ List.mem_cons_self) (hk _ List.mem_cons_self)
      rw [hp, hnext] at hshows
      rw [List.flatten_cons, List.flatten_nil, List.append_nil]
      exact hshows.mpr ⟨hbelow, nofun⟩
  | @cons cursor next limit rows items c requests pages hp _ ih =>
      have hshows := page_shows_iff cursor (hkeyed _ List.mem_cons_self)
        (hlimit _ List.mem_cons_self) (hk _ List.mem_cons_self)
      rw [hp] at hshows
      rw [List.flatten_cons]
      by_cases hc : c ≤ k
      · obtain ⟨r, hr, hrk⟩ := hshows.mpr ⟨hbelow, fun c' hc' ↦ by cases hc'; exact hc⟩
        exact ⟨r, List.mem_append_left _ hr, hrk⟩
      · obtain ⟨r, hr, hrk⟩ := ih hnext
          (fun request hmem ↦ hkeyed request (List.mem_cons_of_mem _ hmem))
          (fun request hmem ↦ hlimit request (List.mem_cons_of_mem _ hmem))
          (fun request hmem ↦ hk request (List.mem_cons_of_mem _ hmem))
          (fun c' hc' ↦ by cases hc'; exact not_le.mp hc)
        exact ⟨r, List.mem_append_right _ hr, hrk⟩

/-- And it is shown once. -/
theorem countP_eq_one (h : Browses key cursor requests pages next) (hnext : next = none)
    (hkeyed : ∀ request ∈ requests, Keyed key request.2)
    (hlimit : ∀ request ∈ requests, 1 ≤ request.1)
    (hk : ∀ request ∈ requests, ∃ r ∈ request.2, key r = k) (hbelow : Below cursor k) :
    (pages.flatten.countP fun r ↦ key r = k) = 1 := by
  have hstrict : Keyed key pages.flatten :=
    List.pairwise_map.mpr ((h.pairwise hkeyed).2.imp fun hlt ↦ hlt.ne')
  rw [hstrict.countP_eq, if_pos (h.exists_shown hnext hkeyed hlimit hk hbelow)]

end Browses

end FeedgateFetcher.Logic.Table
