import FeedgateFetcher.Conflicts

/-!
# Races for a row

Two transactions on one row, which load it and commit at any time.  The row ends as
if one of them had run after the other, as long as no commit meets a row that the
other one has changed in the meantime, harmless overlaps apart.
-/

namespace FeedgateFetcher

open Python Logic

/-! ## Commits -/

theorem runMarks_fst (T D : Int) (ms : List Mark) (p : History) :
    (runMarks T D ms p).1 = ms.foldl (fun l m ↦ m.apply T D l) p.1 := by
  induction ms generalizing p with
  | nil => rfl
  | cons m ms ih => exact ih (m.run T D p)

/-- The transaction, having loaded one row, commits the other one. -/
inductive Transaction.Commits (cfg : Settings) (loaded : Feed) : Transaction → Feed → Prop
  | fetch {up : Upstream} {now : Datetime} {o : Outcome} {session : Session}
    {domains : List Text}
    (hdurable : isDurable (processing up cfg now
      (Tracked.loaded session domains ⟨loaded, []⟩)) = true)
    (houtcome : processingOutcome up cfg now (Tracked.loaded session domains ⟨loaded, []⟩) =
      some o) :
    Commits cfg loaded (.fetch now o)
      (processing up cfg now (Tracked.loaded session domains ⟨loaded, []⟩)).2.feed
  | reactivate {now : Datetime} :
    Commits cfg loaded (.reactivate now) (reactivateFeed now ⟨loaded, []⟩).feed

/-- A committed transaction has its effect on the row that it has loaded. -/
theorem Transaction.Commits.lifecycle {cfg : Settings} {loaded mine : Feed} {t : Transaction}
    (h : t.Commits cfg loaded mine) :
    mine.lifecycle = t.effect cfg.brokenThreshold cfg.deadDurationDays loaded.lifecycle := by
  cases h with
  | fetch hdurable houtcome =>
      obtain ⟨o, ho, -, hhistory⟩ := processing_outcome hdurable
      cases houtcome.symm.trans ho
      exact (congrArg Prod.fst hhistory).trans (runMarks_fst _ _ _ _)
  | @reactivate now => exact congrArg Prod.fst (reactivate_history cfg ⟨loaded, []⟩ now)

theorem Feed.lifecycle_writeBack_current (loaded mine : Feed) :
    (Feed.writeBack loaded mine loaded).lifecycle = mine.lifecycle := by
  ext1 <;> exact Logic.writeBack_current

theorem Feed.health_writeBack (loaded mine current : Feed) :
    (Feed.writeBack loaded mine current).lifecycle.health =
      Health.writeBack loaded.lifecycle.health mine.lifecycle.health current.lifecycle.health := rfl

/-! ## Races -/

/-- How far a transaction has come. -/
inductive Stage where
  | begun
  | loaded (row : Feed)
  | committed

/-- The row, and the stages of the two transactions on it. -/
structure Race where
  row : Feed
  stage : Bool → Stage

namespace Race

def start (row : Feed) : Race := ⟨row, fun _ ↦ .begun⟩

/-- One of the transactions loads the row, or commits the columns that it has changed. -/
inductive Step (cfg : Settings) (txs : Bool → Transaction) (s : Race) : Bool → Race → Prop
  | load {t : Bool} (h : s.stage t = .begun) :
    Step cfg txs s t ⟨s.row, Function.update s.stage t (.loaded s.row)⟩
  | commit {t : Bool} {loaded mine : Feed} (h : s.stage t = .loaded loaded)
    (hmine : (txs t).Commits cfg loaded mine) :
    Step cfg txs s t ⟨Feed.writeBack loaded mine s.row, Function.update s.stage t .committed⟩

/-- The health of the row after the transactions of `order`, each of which loads what the one
before it has committed. -/
def inOrder (cfg : Settings) (txs : Bool → Transaction) (row : Feed) (order : List Bool) : Health :=
  (order.foldl (fun l t ↦ (txs t).effect cfg.brokenThreshold cfg.deadDurationDays l)
    row.lifecycle).health

/-- The committed transactions leave the row as in some order one after the other. -/
def Serial (cfg : Settings) (txs : Bool → Transaction) (row : Feed) (s : Race) : Prop :=
  ∃ order : List Bool, order.Nodup ∧ (∀ t, t ∈ order ↔ s.stage t = .committed) ∧
    s.row.lifecycle.health = inOrder cfg txs row order

/-- If the transaction is about to commit, then the row is still as it was when it loaded it, or
the other transaction has not harmed it. -/
def Clear (cfg : Settings) (txs : Bool → Transaction) (s : Race) (t : Bool) : Prop :=
  ∀ loaded, s.stage t = .loaded loaded → loaded.lifecycle = s.row.lifecycle ∨
    Harmless cfg.brokenThreshold cfg.deadDurationDays loaded.lifecycle (txs !t) (txs t)

/-- A step that meets the condition. -/
def ClearStep (cfg : Settings) (txs : Bool → Transaction) (s : Race) (t : Bool) (s' : Race) :
    Prop := s.Clear cfg txs t ∧ s.Step cfg txs t s'

/-- What is known of the row that the transactions began with. -/
structure Traced (cfg : Settings) (txs : Bool → Transaction) (row : Feed) (s : Race) : Prop where
  loaded : ∀ t f, s.stage t = .loaded f → f = row ∨ s.stage (!t) = .committed ∧ f = s.row
  untouched : (∀ t, s.stage t ≠ .committed) → s.row = row
  first : ∀ t, s.stage t = .committed → s.stage (!t) ≠ .committed →
    s.row.lifecycle =
      (txs t).effect cfg.brokenThreshold cfg.deadDurationDays row.lifecycle

variable {cfg : Settings} {txs : Bool → Transaction} {row loaded mine : Feed} {s s' : Race}
  {t : Bool} {steps : List Bool}

/-- Nobody has committed when neither of the two has. -/
theorem uncommitted (h : s.stage t ≠ .committed) (h' : s.stage (!t) ≠ .committed) (u : Bool) :
    s.stage u ≠ .committed := by
  by_cases hu : u = t
  · rwa [hu]
  · rwa [Bool.eq_not.mpr hu]

namespace Traced

theorem start (cfg : Settings) (txs : Bool → Transaction) (row : Feed) :
    (Race.start row).Traced cfg txs row where
  loaded _ _ h := nomatch h
  untouched _ := rfl
  first _ h := nomatch h

theorem load (h : s.Traced cfg txs row) (hs : s.stage t = .begun) :
    Traced cfg txs row ⟨s.row, Function.update s.stage t (.loaded s.row)⟩ := by
  have hne : s.stage t ≠ .committed := by
    rw [hs]
    exact nofun
  have hother : Function.update s.stage t (.loaded s.row) (!t) = s.stage (!t) :=
    Function.update_of_ne (Bool.not_ne_self t) ..
  refine ⟨fun u f hu ↦ ?_, fun hu ↦ ?_, fun u hu hu' ↦ ?_⟩
  · rcases Bool.eq_or_eq_not u t with rfl | rfl
    · cases (Function.update_self ..).symm.trans hu
      by_cases hc : s.stage (!u) = .committed
      · exact .inr ⟨hother.trans hc, rfl⟩
      · exact .inl (h.untouched (uncommitted hne hc))
    · refine (h.loaded _ f (hother.symm.trans hu)).imp_right fun hc ↦ ?_
      rw [Bool.not_not] at hc
      exact absurd hc.1 hne
  · exact h.untouched (uncommitted hne fun hc ↦ hu _ (hother.trans hc))
  · rcases Bool.eq_or_eq_not u t with rfl | rfl
    · cases (Function.update_self ..).symm.trans hu
    · refine h.first _ (hother.symm.trans hu) ?_
      rwa [Bool.not_not]

theorem commit (h : s.Traced cfg txs row) (hs : s.stage t = .loaded loaded)
    (hmine : (txs t).Commits cfg loaded mine) :
    Traced cfg txs row
      ⟨Feed.writeBack loaded mine s.row, Function.update s.stage t .committed⟩ := by
  have hne : s.stage t ≠ .committed := by
    rw [hs]
    exact nofun
  have hother : Function.update s.stage t .committed (!t) = s.stage (!t) :=
    Function.update_of_ne (Bool.not_ne_self t) ..
  refine ⟨fun u f hu ↦ ?_, fun hu ↦ ?_, fun u hu hu' ↦ ?_⟩
  · rcases Bool.eq_or_eq_not u t with rfl | rfl
    · cases (Function.update_self ..).symm.trans hu
    · refine (h.loaded _ f (hother.symm.trans hu)).imp_right fun hc ↦ ?_
      rw [Bool.not_not] at hc
      exact absurd hc.1 hne
  · exact absurd (Function.update_self ..) (hu t)
  · rcases Bool.eq_or_eq_not u t with rfl | rfl
    · have hc : s.stage (!u) ≠ .committed := fun hc ↦ hu' (hother.trans hc)
      obtain rfl : loaded = row := (h.loaded u loaded hs).resolve_right fun h' ↦ hc h'.1
      rw [h.untouched (uncommitted hne hc), Feed.lifecycle_writeBack_current]
      exact hmine.lifecycle
    · rw [Bool.not_not] at hu'
      exact absurd (Function.update_self ..) hu'

/-- What the second commit makes of the row. -/
theorem second (h : s.Traced cfg txs row) (hs : s.stage t = .loaded loaded)
    (hc : s.stage (!t) = .committed) (hmine : (txs t).Commits cfg loaded mine) :
    (loaded.lifecycle = s.row.lifecycle ∧ (Feed.writeBack loaded mine s.row).lifecycle.health =
        inOrder cfg txs row [!t, t]) ∨
      loaded.lifecycle ≠ s.row.lifecycle ∧ loaded = row ∧
        (Feed.writeBack loaded mine s.row).lifecycle.health =
          overlapped cfg.brokenThreshold cfg.deadDurationDays row.lifecycle (txs !t) (txs t) := by
  have hne : s.stage t ≠ .committed := by
    rw [hs]
    exact nofun
  have hfirst := h.first (!t) hc (by rwa [Bool.not_not])
  rw [Feed.health_writeBack, hmine.lifecycle]
  by_cases hl : loaded.lifecycle = s.row.lifecycle
  · left
    rw [hl, hfirst, Health.writeBack_current]
    exact ⟨rfl, rfl⟩
  · right
    obtain rfl : loaded = row := (h.loaded t loaded hs).resolve_right fun h' ↦
      hl (congrArg Feed.lifecycle h'.2)
    refine ⟨hl, rfl, ?_⟩
    rw [hfirst]
    rfl

/-- As long as one of the two has not committed, there is nothing to put in order. -/
theorem serial (h : s.Traced cfg txs row) (hne : s.stage t ≠ .committed) :
    s.Serial cfg txs row := by
  by_cases hc : s.stage (!t) = .committed
  · refine ⟨[!t], List.nodup_singleton _, fun u ↦ ?_, ?_⟩
    · rcases Bool.eq_or_eq_not u t with rfl | rfl
      · exact iff_of_false (by simp) hne
      · exact iff_of_true List.mem_cons_self hc
    · exact congrArg Lifecycle.health (h.first (!t) hc (by rwa [Bool.not_not]))
  · refine ⟨[], List.nodup_nil, fun u ↦ ?_, ?_⟩
    · exact iff_of_false List.not_mem_nil (uncommitted hne hc u)
    · rw [h.untouched (uncommitted hne hc)]
      rfl

theorem step (h : s.Traced cfg txs row) (hs : s.Step cfg txs t s') : s'.Traced cfg txs row := by
  cases hs with
  | load hs => exact h.load hs
  | commit hs hmine => exact h.commit hs hmine

end Traced

/-- Two different transactions in some order. -/
theorem eq_pair {order : List Bool} (hn : order.Nodup) (h : ∀ t, t ∈ order) :
    ∃ t, order = [!t, t] := by
  rcases order with _ | ⟨a, _ | ⟨b, _ | ⟨c, rest⟩⟩⟩
  · exact absurd (h true) List.not_mem_nil
  · exact absurd (h (!a)) (by simp)
  · have hab : a = !b := Bool.eq_not.mpr (by simpa using hn)
    exact ⟨b, by rw [hab]⟩
  · simp only [List.nodup_cons, List.mem_cons, not_or] at hn
    have hbc : b = c := (Bool.eq_not.mpr (Ne.symm hn.1.1)).trans
      (Bool.eq_not.mpr (Ne.symm hn.1.2.1)).symm
    exact absurd hbc hn.2.1.1

/-- When both have committed, a serial row is that of one of the two orders. -/
theorem serial_iff (hc : ∀ u, s.stage u = .committed) (t : Bool) : s.Serial cfg txs row ↔
    s.row.lifecycle.health = inOrder cfg txs row [!t, t] ∨
      s.row.lifecycle.health = inOrder cfg txs row [t, !t] := by
  constructor
  · rintro ⟨order, hn, hmem, hrow⟩
    obtain ⟨u, rfl⟩ := eq_pair hn fun u ↦ (hmem u).mpr (hc u)
    rcases Bool.eq_or_eq_not u t with rfl | rfl
    · exact .inl hrow
    · rw [Bool.not_not] at hrow
      exact .inr hrow
  · rintro (h | h)
    · exact ⟨_, by simp, fun u ↦ iff_of_true (by cases u <;> cases t <;> simp) (hc u), h⟩
    · exact ⟨_, by simp, fun u ↦ iff_of_true (by cases u <;> cases t <;> simp) (hc u), h⟩

theorem committed_of_update (hc : s.stage (!t) = .committed) (u : Bool) :
    Function.update s.stage t .committed u = .committed := by
  rcases Bool.eq_or_eq_not u t with rfl | rfl
  · exact Function.update_self ..
  · exact (Function.update_of_ne (Bool.not_ne_self t) ..).trans hc

theorem ClearStep.serial (h : s.Traced cfg txs row) (hs : s.ClearStep cfg txs t s') :
    s'.Serial cfg txs row := by
  obtain ⟨hclear, hstep⟩ := hs
  cases hstep with
  | load hs =>
      have hstage : Function.update s.stage t (.loaded s.row) t = .loaded s.row :=
        Function.update_self ..
      exact (h.load hs).serial (t := t) fun hc ↦ nomatch hstage.symm.trans hc
  | @commit loaded mine hs hmine =>
      by_cases hc : s.stage (!t) = .committed
      · refine (serial_iff (committed_of_update hc) t).mpr ?_
        rcases h.second hs hc hmine with ⟨-, h'⟩ | ⟨hne, rfl, h'⟩
        · exact .inl h'
        · rw [h']
          exact ((hclear loaded hs).resolve_left hne).orderly
      · have hother : Function.update s.stage t .committed (!t) = s.stage (!t) :=
          Function.update_of_ne (Bool.not_ne_self t) ..
        exact (h.commit hs hmine).serial (t := !t) fun hc' ↦ hc (hother.symm.trans hc')

/-- Without spoiled answers, only a clear step leads to a serial row. -/
theorem Step.clear (hplain : ∀ t, (txs t).Plain) (h0 : 0 ≤ row.consecutiveFailures)
    (h : s.Traced cfg txs row) (hs : s.Step cfg txs t s') (hserial : s'.Serial cfg txs row) :
    s.Clear cfg txs t := by
  intro f hf
  cases hs with
  | load hs => cases hs.symm.trans hf
  | @commit loaded mine hs hmine =>
      cases hs.symm.trans hf
      by_cases hc : s.stage (!t) = .committed
      · rcases h.second hs hc hmine with ⟨hl, -⟩ | ⟨-, rfl, h'⟩
        · exact .inl hl
        · have hcases := (serial_iff (committed_of_update hc) t).mp hserial
          rw [h'] at hcases
          exact .inr (Orderly.harmless (hplain _) (hplain _) h0 hcases)
      · left
        have hne : s.stage t ≠ .committed := by
          rw [hs]
          exact nofun
        rw [h.untouched (uncommitted hne hc),
          (h.loaded t f hs).resolve_right fun h' ↦ hc h'.1]

theorem Traced.run (h : Run (Step cfg txs) (Race.start row) steps s) : s.Traced cfg txs row :=
  h.invariant (fun _ _ _ ht hs ↦ ht.step hs) (.start cfg txs row)

theorem Serial.graded (hT : 1 ≤ cfg.brokenThreshold)
    (hrow : row.lifecycle.health.Graded cfg.brokenThreshold) (h : s.Serial cfg txs row) :
    s.row.lifecycle.health.Graded cfg.brokenThreshold := by
  obtain ⟨order, -, -, hs⟩ := h
  rw [hs, inOrder]
  clear hs
  generalize row.lifecycle = l at hrow ⊢
  induction order generalizing l with
  | nil => exact hrow
  | cons t order ih => exact ih _ ((txs t).effect_graded hT hrow)

/-- A run of clear steps leaves the row as in some order, and its status in agreement with the
failures; without spoiled answers, no other run leaves it as in some order. -/
theorem serial_of_clear (h : Run (Step cfg txs) (start row) steps s) :
    (Run (ClearStep cfg txs) (start row) steps s → s.Serial cfg txs row ∧
      (1 ≤ cfg.brokenThreshold → row.lifecycle.health.Graded cfg.brokenThreshold →
        s.row.lifecycle.health.Graded cfg.brokenThreshold)) ∧
    ((∀ t, (txs t).Plain) → 0 ≤ row.consecutiveFailures → s.Serial cfg txs row →
      Run (ClearStep cfg txs) (start row) steps s) := by
  constructor
  · intro hclear
    have hserial : s.Serial cfg txs row := by
      cases hclear with
      | nil => exact (Traced.start cfg txs row).serial (t := true) nofun
      | snoc hprev hs => exact hs.serial (.run (hprev.mono fun _ _ _ hs ↦ hs.2))
    exact ⟨hserial, fun hT hrow ↦ hserial.graded hT hrow⟩
  · intro hplain h0 hserial
    induction h with
    | nil => exact .nil
    | @snoc steps s s' t hprev hs ih =>
        have htraced : s.Traced cfg txs row := .run hprev
        -- the transaction that moves has not committed yet, so the row was serial before
        have hne : s.stage t ≠ .committed := by
          cases hs with
          | load hs =>
              rw [hs]
              exact nofun
          | commit hs _ =>
              rw [hs]
              exact nofun
        exact (ih (htraced.serial hne)).snoc ⟨hs.clear hplain h0 htraced hserial, hs⟩

/-! ### A failure and a reactivation -/

/-- The transactions of a worker whose fetch times out, and of a user who reactivates the feed. -/
def timeoutOrReactivate : Bool → Transaction
  | true => .fetch .year2000 (.failed .timeout)
  | false => .reactivate .year2000

/-- The first feed with its failures, all of them timeouts. -/
def timedOut (status : FeedStatus) (failures : Int) : Feed :=
  { Feed.registered 1 "http://a.example/feed".toList .year2000 .year2000 with
    status := status
    consecutiveFailures := failures
    lastErrorCode := some .timeout }

/-- The row as the worker commits it. -/
def unanswered (row : Feed) : Feed :=
  (processing .silent {} .year2000 (Tracked.loaded (.start [] 1) [] ⟨row, []⟩)).2.feed

def openedByWorker (row : Feed) : Race :=
  ⟨row, Function.update (start row).stage true (.loaded row)⟩

def openedByBoth (row : Feed) : Race :=
  ⟨row, Function.update (openedByWorker row).stage false (.loaded row)⟩

def closedByWorker (row : Feed) : Race :=
  ⟨Feed.writeBack row (unanswered row) row,
    Function.update (openedByBoth row).stage true .committed⟩

/-- Both have loaded the row, then the worker has committed and after it the user. -/
def overlap (row : Feed) : Race :=
  ⟨Feed.writeBack row (reactivateFeed .year2000 ⟨row, []⟩).feed (closedByWorker row).row,
    Function.update (closedByWorker row).stage false .committed⟩

theorem overlap_committed (row : Feed) (t : Bool) : (overlap row).stage t = .committed := by
  cases t <;> rfl

theorem overlap_run (hmine : (timeoutOrReactivate true).Commits {} row (unanswered row)) :
    Run (Step {} timeoutOrReactivate) (start row) [true, false, true, false] (overlap row) :=
  (((Run.single (.load rfl)).snoc (.load rfl)).snoc (.commit rfl hmine)).snoc
    (.commit rfl .reactivate)

/-- The timeout of a feed that is broken already is forgotten. -/
theorem forgotten_timeout_serial :
    (overlap (timedOut .broken 3)).Serial {} timeoutOrReactivate (timedOut .broken 3) := by
  have hmine : (timeoutOrReactivate true).Commits {} (timedOut .broken 3)
      (unanswered (timedOut .broken 3)) := .fetch (by decide +kernel) (by decide +kernel)
  have hharmless : Harmless 3 7 (timedOut .broken 3).lifecycle (timeoutOrReactivate true)
      (timeoutOrReactivate false) :=
    .forgotten trivial (by decide) nofun nofun fun ⟨_, h⟩ ↦ nomatch h
  have h₁ : ClearStep {} timeoutOrReactivate (start (timedOut .broken 3)) true
      (openedByWorker (timedOut .broken 3)) := ⟨(fun _ h ↦ nomatch h), .load rfl⟩
  have h₂ : ClearStep {} timeoutOrReactivate (openedByWorker (timedOut .broken 3)) false
      (openedByBoth (timedOut .broken 3)) := ⟨(fun _ h ↦ nomatch h), .load rfl⟩
  have h₃ : ClearStep {} timeoutOrReactivate (openedByBoth (timedOut .broken 3)) true
      (closedByWorker (timedOut .broken 3)) :=
    ⟨fun _ h ↦ .inl (by cases h; rfl), .commit rfl hmine⟩
  have h₄ : ClearStep {} timeoutOrReactivate (closedByWorker (timedOut .broken 3)) false
      (overlap (timedOut .broken 3)) :=
    ⟨fun _ h ↦ .inr (by cases h; exact hharmless), .commit rfl .reactivate⟩
  exact ((serial_of_clear (overlap_run hmine)).1 ((((Run.single h₁).snoc h₂).snoc h₃).snoc h₄)).1

/-- The one that breaks the feed leaves it broken without a failure. -/
theorem lost_timeout_not_serial : ∃ s,
    Run (Step {} timeoutOrReactivate) (start (timedOut .active 2)) [true, false, true, false] s ∧
    (∀ t, s.stage t = .committed) ∧ s.row.status = .broken ∧
    s.row.consecutiveFailures = 0 ∧ ¬s.Serial {} timeoutOrReactivate (timedOut .active 2) := by
  have hmine : (timeoutOrReactivate true).Commits {} (timedOut .active 2)
      (unanswered (timedOut .active 2)) := .fetch (by decide +kernel) (by decide +kernel)
  refine ⟨_, overlap_run hmine, overlap_committed _, by decide +kernel, by decide +kernel, ?_⟩
  rw [serial_iff (overlap_committed _) true]
  decide +kernel

end Race

end FeedgateFetcher
