import FeedgateFetcher.Logic.Ranking

/-!
# Keyset pagination

A page is the beginning of the ranking below a cursor, and the cursor of the next
page is the key of the last row on it.  Along a walk the cursors only descend, so
a row is on the one page whose two cursors its key lies between.
-/

universe u v

namespace FeedgateFetcher.Logic.Table

variable {ρ : Type u} {κ : Type v} [LinearOrder κ] (key : ρ → κ)

/-- The rows below the cursor, all of them when there is none. -/
def beyond (cursor : Option κ) (rows : List ρ) : List ρ :=
  match cursor with
  | none => rows
  | some c => rows.filter fun r ↦ key r < c

/-- One page: one row more than the limit is asked for, to see whether there is another page. -/
def page (limit : Nat) (cursor : Option κ) (rows : List ρ) : List ρ × Option κ :=
  let found := leading key (limit + 1) (beyond key cursor rows)
  let items := found.take limit
  (items, if limit < found.length then items.getLast?.map key else none)

/-- The key lies below the cursor. -/
def Below (cursor : Option κ) (k : κ) : Prop := ∀ c ∈ cursor, k < c

variable {key} {limit : Nat} {cursor next : Option κ} {rows items : List ρ} {r : ρ} {c k : κ}

theorem mem_beyond : r ∈ beyond key cursor rows ↔ r ∈ rows ∧ Below cursor (key r) := by
  cases cursor with
  | none => exact ⟨fun h ↦ ⟨h, nofun⟩, fun h ↦ h.1⟩
  | some c =>
      rw [beyond, List.mem_filter, decide_eq_true_iff, Below]
      refine and_congr_right fun _ ↦ ⟨fun h c' hc ↦ ?_, fun h ↦ h c rfl⟩
      cases hc
      exact h

theorem Keyed.beyond (h : Keyed key rows) (cursor : Option κ) :
    Keyed key (beyond key cursor rows) := by
  cases cursor with
  | none => exact h
  | some c => exact h.sublist List.filter_sublist

/-- A page in terms of the whole ranking below the cursor. -/
theorem page_eq (limit : Nat) (cursor : Option κ) (rows : List ρ) :
    page key limit cursor rows =
      ((ranked key (beyond key cursor rows)).take limit,
        if limit < (beyond key cursor rows).length then
          ((ranked key (beyond key cursor rows)).take limit).getLast?.map key
        else none) := by
  have hitems : (leading key (limit + 1) (beyond key cursor rows)).take limit =
      (ranked key (beyond key cursor rows)).take limit := by
    rw [leading, List.take_take, min_eq_left (Nat.le_succ limit)]
  have hmore : limit < (leading key (limit + 1) (beyond key cursor rows)).length ↔
      limit < (beyond key cursor rows).length := by
    rw [length_leading]
    omega
  rw [page, hitems]
  simp only [hmore]

/-- On the last page the ranking is complete. -/
theorem page_last (cursor : Option κ) (rows : List ρ) (hlimit : 1 ≤ limit)
    (h : (page key limit cursor rows).2 = none) :
    (page key limit cursor rows).1 = ranked key (beyond key cursor rows) := by
  rw [page_eq] at h ⊢
  refine List.take_of_length_le (not_lt.mp fun hmore ↦ ?_)
  rw [length_ranked] at hmore
  rw [if_pos hmore, Option.map_eq_none_iff, List.getLast?_eq_none_iff] at h
  have hlength := congrArg List.length h
  rw [List.length_take, length_ranked, List.length_nil] at hlength
  omega

/-- The last row of a strict arrangement has the least key. -/
theorem key_getLast_le {l : List ρ} (h : l.Pairwise fun r s ↦ key s < key r) {last : ρ}
    (hlast : l.getLast? = some last) (hr : r ∈ l) : key last ≤ key r := by
  obtain ⟨l, rfl⟩ := List.getLast?_eq_some_iff.mp hlast
  rcases List.mem_append.mp hr with hr | hr
  · exact ((List.pairwise_append.mp h).2.2 r hr last List.mem_cons_self).le
  · rw [List.mem_singleton.mp hr]

/-- Any other page ends at its cursor, and the rest of the ranking lies below it. -/
theorem page_next (cursor : Option κ) (hkeyed : Keyed key rows)
    (h : (page key limit cursor rows).2 = some c) :
    limit < (beyond key cursor rows).length ∧ Below cursor c ∧
      (∀ r ∈ (page key limit cursor rows).1, c ≤ key r) ∧
      ranked key (beyond key (some c) rows) =
        (ranked key (beyond key cursor rows)).drop limit := by
  have hstrict := (hkeyed.beyond cursor).ranked_pairwise
  rw [page_eq] at h ⊢
  dsimp only at h ⊢
  split at h
  · rename_i hmore
    obtain ⟨last, hlast, rfl⟩ := Option.map_eq_some_iff.mp h
    have hmem : last ∈ (ranked key (beyond key cursor rows)).take limit :=
      List.mem_of_getLast? hlast
    have hbelow : Below cursor (key last) :=
      (mem_beyond.mp (mem_ranked.mp (List.mem_of_mem_take hmem))).2
    have hpage : ∀ r ∈ (ranked key (beyond key cursor rows)).take limit, key last ≤ key r :=
      fun r hr ↦ key_getLast_le (hstrict.sublist (List.take_sublist _ _)) hlast hr
    refine ⟨hmore, hbelow, hpage, ?_⟩
    have hrest : beyond key (some (key last)) rows =
        (beyond key cursor rows).filter fun r ↦ key r < key last := by
      cases cursor with
      | none => rfl
      | some c =>
          rw [beyond, beyond, List.filter_filter]
          refine List.filter_congr fun r _ ↦ ?_
          rw [← Bool.decide_and]
          exact decide_eq_decide.mpr ⟨fun hr ↦ ⟨hr, hr.trans (hbelow c rfl)⟩, fun hr ↦ hr.1⟩
    rw [← List.take_append_drop limit (ranked key (beyond key cursor rows))] at hstrict
    have hcut := (List.pairwise_append.mp hstrict).2.2
    rw [hrest, (hkeyed.beyond cursor).ranked_filter]
    conv_lhs => rw [← List.take_append_drop limit (ranked key (beyond key cursor rows)),
      List.filter_append]
    have htake : ((ranked key (beyond key cursor rows)).take limit).filter
        (fun r ↦ key r < key last) = [] :=
      List.filter_eq_nil_iff.mpr fun r hr hlt ↦
        absurd (of_decide_eq_true hlt) (not_lt.mpr (hpage r hr))
    have hdrop : ((ranked key (beyond key cursor rows)).drop limit).filter
        (fun r ↦ key r < key last) = (ranked key (beyond key cursor rows)).drop limit :=
      List.filter_eq_self.mpr fun r hr ↦ decide_eq_true (hcut last hmem r hr)
    rw [htake, hdrop, List.nil_append]
  · cases h

/-! ## Walks -/

/-- The pages of a walk, from a cursor to the end, over the tables at its requests. -/
inductive Walks (key : ρ → κ) (limit : Nat) : Option κ → List (List ρ) → List (List ρ) → Prop
  | last {cursor : Option κ} {rows items : List ρ} : page key limit cursor rows = (items, none) →
    Walks key limit cursor [rows] [items]
  | next {cursor : Option κ} {rows items : List ρ} {c : κ} {tables pages : List (List ρ)} :
    page key limit cursor rows = (items, some c) → Walks key limit (some c) tables pages →
    Walks key limit cursor (rows :: tables) (items :: pages)

/-- A walk over a table that does not change, which is given up after `fuel` pages. -/
def walk (key : ρ → κ) (limit : Nat) (rows : List ρ) : (fuel : Nat) → Option κ → Option (List ρ)
  | 0, _ => none
  | fuel + 1, cursor => match page key limit cursor rows with
    | (items, none) => some items
    | (items, some c) => (walk key limit rows fuel (some c)).map fun rest ↦ items ++ rest

/-- With enough pages the walk yields the ranking. -/
theorem walk_eq (hkeyed : Keyed key rows) (hlimit : 1 ≤ limit) {fuel : Nat} {cursor : Option κ}
    (hfuel : (beyond key cursor rows).length < fuel * limit) :
    walk key limit rows fuel cursor = some (ranked key (beyond key cursor rows)) := by
  induction fuel generalizing cursor with
  | zero => exact absurd hfuel (by rw [Nat.zero_mul]; exact Nat.not_lt_zero _)
  | succ fuel ih =>
      rw [walk]
      rcases hp : page key limit cursor rows with ⟨items, _ | c⟩
      · have hlast := page_last cursor rows hlimit (congrArg Prod.snd hp)
        rw [hp] at hlast
        exact congrArg some hlast
      · obtain ⟨hmore, -, -, hrest⟩ := page_next cursor hkeyed (congrArg Prod.snd hp)
        have hitems : items = (ranked key (beyond key cursor rows)).take limit := by
          rw [page_eq] at hp
          exact (congrArg Prod.fst hp).symm
        have hlength := congrArg List.length hrest
        rw [length_ranked, List.length_drop, length_ranked] at hlength
        rw [Nat.add_mul, Nat.one_mul] at hfuel
        dsimp only
        rw [ih (by omega), hrest, hitems]
        exact congrArg some (List.take_append_drop limit _)

/-- A page shows the rows between its two cursors. -/
theorem mem_page_iff (hkeyed : Keyed key rows) (hlimit : 1 ≤ limit) :
    r ∈ (page key limit cursor rows).1 ↔
      r ∈ rows ∧ Below cursor (key r) ∧ ∀ c ∈ (page key limit cursor rows).2, c ≤ key r := by
  cases hnext : (page key limit cursor rows).2 with
  | none =>
      rw [page_last cursor rows hlimit hnext, mem_ranked, mem_beyond]
      exact ⟨fun h ↦ ⟨h.1, h.2, nofun⟩, fun h ↦ ⟨h.1, h.2.1⟩⟩
  | some c =>
      obtain ⟨-, -, hpage, hrest⟩ := page_next cursor hkeyed hnext
      constructor
      · intro hr
        have hc := hpage r hr
        rw [page_eq] at hr
        obtain ⟨hmem, hbelow⟩ := mem_beyond.mp (mem_ranked.mp (List.mem_of_mem_take hr))
        refine ⟨hmem, hbelow, fun c' hc' ↦ ?_⟩
        cases hc'
        exact hc
      · rintro ⟨hmem, hbelow, hc⟩
        have hr : r ∈ ranked key (beyond key cursor rows) :=
          mem_ranked.mpr (mem_beyond.mpr ⟨hmem, hbelow⟩)
        rw [← List.take_append_drop limit (ranked key (beyond key cursor rows)), ← hrest] at hr
        rw [page_eq]
        refine (List.mem_append.mp hr).resolve_right fun hlater ↦ ?_
        exact absurd ((mem_beyond.mp (mem_ranked.mp hlater)).2 c rfl) (not_lt.mpr (hc c rfl))

theorem page_keyed (limit : Nat) (cursor : Option κ) (hkeyed : Keyed key rows) :
    Keyed key (page key limit cursor rows).1 := by
  rw [page_eq]
  exact ((hkeyed.beyond cursor).perm (ranked_perm key _)).sublist (List.take_sublist _ _)

/-- In a keyed table a key occurs once or not at all. -/
theorem Keyed.countP_eq (h : Keyed key rows) (k : κ) :
    (rows.countP fun r ↦ key r = k) = if ∃ r ∈ rows, key r = k then 1 else 0 := by
  have hcount : (rows.countP fun r ↦ key r = k) = (rows.map key).count k := by
    rw [List.count, List.countP_map]
    exact List.countP_congr fun r _ ↦ by simp
  rw [hcount, List.Nodup.count h]
  simp only [List.mem_map]

theorem page_shows_iff (cursor : Option κ) (hkeyed : Keyed key rows) (hlimit : 1 ≤ limit)
    (hk : ∃ r ∈ rows, key r = k) :
    (∃ r ∈ (page key limit cursor rows).1, key r = k) ↔
      Below cursor k ∧ ∀ c ∈ (page key limit cursor rows).2, c ≤ k := by
  constructor
  · rintro ⟨r, hr, rfl⟩
    exact ((mem_page_iff hkeyed hlimit).mp hr).2
  · obtain ⟨r, hr, rfl⟩ := hk
    exact fun h ↦ ⟨r, (mem_page_iff hkeyed hlimit).mpr ⟨hr, h⟩, rfl⟩

/-- What a walk shows was in the tables. -/
theorem Walks.mem_tables {tables pages : List (List ρ)} (h : Walks key limit cursor tables pages)
    (hr : r ∈ pages.flatten) : ∃ rows ∈ tables, r ∈ rows := by
  have hpage : ∀ {cursor next : Option κ} {rows items : List ρ},
      page key limit cursor rows = (items, next) → r ∈ items → r ∈ rows := by
    intro cursor next rows items hp hr
    rw [page_eq] at hp
    cases hp
    exact (mem_beyond.mp (mem_ranked.mp (List.mem_of_mem_take hr))).1
  induction h with
  | @last cursor rows items hp =>
      rw [List.flatten_cons, List.flatten_nil, List.append_nil] at hr
      exact ⟨rows, List.mem_cons_self, hpage hp hr⟩
  | @next cursor rows items c tables pages hp _ ih =>
      rw [List.flatten_cons, List.mem_append] at hr
      rcases hr with hr | hr
      · exact ⟨rows, List.mem_cons_self, hpage hp hr⟩
      · obtain ⟨rows', hrows, hr'⟩ := ih hr
        exact ⟨rows', List.mem_cons_of_mem _ hrows, hr'⟩

/-- A row that stays in the table under its key is met once by a walk that starts above it, and
not at all by a walk that starts below it. -/
theorem Walks.countP_eq {tables pages : List (List ρ)} (h : Walks key limit cursor tables pages)
    (hlimit : 1 ≤ limit) (hkeyed : ∀ rows ∈ tables, Keyed key rows)
    (hk : ∀ rows ∈ tables, ∃ r ∈ rows, key r = k) :
    (Below cursor k → (pages.flatten.countP fun r ↦ key r = k) = 1) ∧
      (¬Below cursor k → (pages.flatten.countP fun r ↦ key r = k) = 0) := by
  induction h with
  | @last cursor rows items hp =>
      have hrows := hkeyed rows List.mem_cons_self
      have hshows := page_shows_iff cursor hrows hlimit (hk rows List.mem_cons_self)
      have hitems := (page_keyed limit cursor hrows).countP_eq k
      rw [hp] at hshows hitems
      rw [List.flatten_cons, List.flatten_nil, List.append_nil, hitems]
      exact ⟨fun hb ↦ if_pos (hshows.mpr ⟨hb, nofun⟩),
        fun hb ↦ if_neg (mt hshows.mp fun h ↦ hb h.1)⟩
  | @next cursor rows items c tables pages hp _ ih =>
      have hrows := hkeyed rows List.mem_cons_self
      have hshows := page_shows_iff cursor hrows hlimit (hk rows List.mem_cons_self)
      have hitems := (page_keyed limit cursor hrows).countP_eq k
      obtain ⟨-, hdescends, -, -⟩ := page_next cursor hrows (congrArg Prod.snd hp)
      rw [hp] at hshows hitems
      obtain ⟨ihbelow, ihabove⟩ := ih (fun rows hr ↦ hkeyed rows (List.mem_cons_of_mem _ hr))
        fun rows hr ↦ hk rows (List.mem_cons_of_mem _ hr)
      rw [List.flatten_cons, List.countP_append, hitems]
      constructor
      · intro hb
        by_cases hc : k < c
        · -- a later page shows the row
          have hlater : Below (some c) k := fun c' hc' ↦ Option.some.inj hc' ▸ hc
          rw [if_neg fun h ↦ absurd ((hshows.mp h).2 c rfl) (not_le.mpr hc), ihbelow hlater]
        · have hlater : ¬Below (some c) k := fun h ↦ hc (h c rfl)
          have hshown : ∀ c' ∈ some c, c' ≤ k := fun c' hc' ↦ Option.some.inj hc' ▸ not_lt.mp hc
          rw [if_pos (hshows.mpr ⟨hb, hshown⟩), ihabove hlater]
      · intro hb
        -- the cursors descend, so the walk does not come back
        have hlater : ¬Below (some c) k := fun h ↦
          hb fun c' hc' ↦ (h c rfl).trans (hdescends c' hc')
        rw [if_neg fun h ↦ hb (hshows.mp h).1, ihabove hlater]

end FeedgateFetcher.Logic.Table
