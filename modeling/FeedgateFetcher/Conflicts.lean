import FeedgateFetcher.Logic.Snapshot
import FeedgateFetcher.Runs

/-!
# Conflicts of two transactions

What two transactions make of the status, the failures and the error code of a row
that both have loaded before the other one commits.  Each commit writes the columns
that it changes, so the row can end as no order of the two would leave it.
-/

namespace FeedgateFetcher

open Python Logic

/-! ## The health of a feed -/

/-- The columns that say how a feed does. -/
@[ext]
structure Health where
  status : FeedStatus
  consecutiveFailures : Int
  lastErrorCode : Option ErrorCode
deriving DecidableEq, Repr

namespace Lifecycle

def health (l : Lifecycle) : Health := ⟨l.status, l.consecutiveFailures, l.lastErrorCode⟩

def withError (l : Lifecycle) (e : Option ErrorCode) : Lifecycle := { l with lastErrorCode := e }

end Lifecycle

namespace Health

/-- An active feed without failures. -/
def sound : Health := ⟨.active, 0, none⟩

def writeBack (loaded mine current : Health) : Health where
  status := Logic.writeBack loaded.status mine.status current.status
  consecutiveFailures := Logic.writeBack loaded.consecutiveFailures mine.consecutiveFailures
    current.consecutiveFailures
  lastErrorCode := Logic.writeBack loaded.lastErrorCode mine.lastErrorCode current.lastErrorCode

/-- The status agrees with the number of failures. -/
structure Graded (brokenThreshold : Int) (h : Health) : Prop where
  active : h.status = .active → h.consecutiveFailures < brokenThreshold
  broken : h.status = .broken → brokenThreshold ≤ h.consecutiveFailures

variable {loaded mine current : Health}

@[simp] theorem writeBack_current : writeBack current mine current = mine := by
  ext1 <;> exact Logic.writeBack_current

@[simp] theorem writeBack_unchanged : writeBack loaded loaded current = current := by
  ext1 <;> exact Logic.writeBack_unchanged

@[simp] theorem writeBack_self : writeBack loaded mine mine = mine := by
  ext1 <;> exact Logic.writeBack_self

/-! ### A reset and a failure -/

/-- One more failure, with the status in which it leaves the feed. -/
def failed (h : Health) (fate : FeedStatus) (code : ErrorCode) : Health :=
  ⟨fate, h.consecutiveFailures + 1, some code⟩

variable {h : Health} {fate later : FeedStatus} {code : ErrorCode}

/-- The reset overwrites the failure. -/
theorem writeBack_reset_eq_sound_iff : writeBack h sound (h.failed fate code) = sound ↔
    h.consecutiveFailures ≠ 0 ∧ h.lastErrorCode ≠ none ∧
      (h.status = .active → fate = .active) := by
  rw [Health.ext_iff]
  simp only [writeBack, Logic.writeBack_eq_mine_iff, sound, failed, reduceCtorEq, imp_false]
  constructor
  · rintro ⟨hstatus, hcount, herror⟩
    exact ⟨fun hc ↦ by have := hcount hc; omega, herror, hstatus⟩
  · rintro ⟨hcount, herror, hstatus⟩
    exact ⟨hstatus, fun hc ↦ absurd hc hcount, herror⟩

/-- The reset finds nothing to overwrite. -/
theorem writeBack_reset_eq_failed_iff :
    writeBack h sound (h.failed fate code) = sound.failed later code ↔
      h.consecutiveFailures = 0 ∧ h.lastErrorCode = none ∧
        later = if h.status = .active then fate else .active := by
  rw [Health.ext_iff]
  simp only [writeBack, Logic.writeBack_eq_ite, sound, failed]
  constructor
  · rintro ⟨hstatus, hcount, herror⟩
    refine ⟨?_, ?_, hstatus.symm⟩
    · by_contra hc
      rw [if_neg hc] at hcount
      omega
    · by_contra he
      rw [if_neg he] at herror
      cases herror
  · rintro ⟨hcount, herror, hstatus⟩
    refine ⟨hstatus.symm, ?_, if_pos herror⟩
    rw [if_pos hcount, hcount]

/-- The failure overwrites the reset, but for the status that it does not change. -/
theorem writeBack_failed_eq : writeBack h (h.failed fate code) sound =
    ⟨if fate = h.status then .active else fate, h.consecutiveFailures + 1,
      if h.lastErrorCode = some code then none else some code⟩ := by
  ext1
  · rfl
  · exact Logic.writeBack_of_ne (by simp only [failed]; omega)
  · exact Logic.writeBack_eq_ite

theorem writeBack_failed_eq_failed_iff :
    writeBack h (h.failed fate code) sound = sound.failed later code ↔
      h.consecutiveFailures = 0 ∧ h.lastErrorCode ≠ some code ∧
        later = if fate = h.status then .active else fate := by
  rw [writeBack_failed_eq, Health.ext_iff]
  simp only [sound, failed]
  constructor
  · rintro ⟨hstatus, hcount, herror⟩
    refine ⟨by omega, fun he ↦ ?_, hstatus.symm⟩
    rw [if_pos he] at herror
    cases herror
  · rintro ⟨hcount, herror, hstatus⟩
    exact ⟨hstatus.symm, by omega, if_neg herror⟩

end Health

/-! ## Transactions -/

/-- A `_process_feed` with the outcome of its fetch, or a `reactivate_feed`. -/
inductive Transaction where
  | fetch (now : Datetime) (o : Outcome)
  | reactivate (now : Datetime)
deriving DecidableEq, Repr

theorem Mark.apply_withError {T D : Int} (m : Mark) (l : Lifecycle) :
    (∀ e, m.apply T D (l.withError e) = (m.apply T D l).withError e) ∨
      ∀ e, m.apply T D (l.withError e) = m.apply T D l := by
  cases m with
  | notModified now =>
      by_cases h : l.status = .broken
      · refine .inr fun e ↦ ?_
        rw [apply_notModified_of_broken now h]
        exact apply_notModified_of_broken (l := l.withError e) now h
      · refine .inl fun e ↦ ?_
        rw [apply_notModified_of_ne now h]
        exact apply_notModified_of_ne (l := l.withError e) now h
  | success now => exact .inr fun _ ↦ rfl
  | rateLimited => exact .inr fun _ ↦ rfl
  | failure now code => exact .inr fun _ ↦ rfl
  | reactivate => exact .inr fun _ ↦ rfl

theorem Mark.graded_failure {T D : Int} {now : Datetime} {code : ErrorCode} {l : Lifecycle}
    (h : l.health.Graded T) : (l.health.failed (l.fate T D now code) code).Graded T := by
  unfold Lifecycle.fate
  split
  · exact ⟨nofun, nofun⟩
  split
  · rename_i hbreaks
    exact ⟨nofun, fun _ ↦ hbreaks.2⟩
  · rename_i hbreaks
    constructor
    · intro hs
      by_contra hle
      exact hbreaks ⟨hs, not_lt.mp hle⟩
    · intro hs
      have hle : T ≤ l.consecutiveFailures := h.broken hs
      simp only [Health.failed, Lifecycle.health]
      omega

/-- A mark leaves the status in agreement with the number of failures. -/
theorem Mark.graded {T D : Int} (hT : 1 ≤ T) (m : Mark) {l : Lifecycle} (h : l.health.Graded T) :
    (m.apply T D l).health.Graded T := by
  have hsound : Health.sound.Graded T := ⟨fun _ ↦ hT, fun hs ↦ nomatch hs⟩
  cases m with
  | success now =>
      rw [apply_success]
      exact hsound
  | notModified now =>
      by_cases hs : l.status = .broken
      · rw [apply_notModified_of_broken now hs]
        exact hsound
      · rw [apply_notModified_of_ne now hs]
        exact h
  | rateLimited => exact ⟨h.active, h.broken⟩
  | reactivate =>
      rw [apply_reactivate]
      exact hsound
  | failure now code =>
      rw [apply_failure]
      exact graded_failure h

namespace Transaction

def marks : Transaction → List Mark
  | .fetch now o => o.marks now
  | .reactivate _ => [.reactivate]

/-- What the transaction, alone, makes of the lifecycle columns. -/
def effect (brokenThreshold deadDurationDays : Int) (t : Transaction) (l : Lifecycle) :
    Lifecycle :=
  t.marks.foldl (fun l m ↦ m.apply brokenThreshold deadDurationDays l) l

/-- The failure that the transaction counts. -/
def failure : Transaction → Option ErrorCode
  | .fetch _ o => o.failure
  | .reactivate _ => none

/-- The fetch is answered 429. -/
def Limited (t : Transaction) : Prop := ∃ now, t = .fetch now (.answered .rateLimited)

/-- The fetch is answered 304. -/
def Confirms (t : Transaction) : Prop := ∃ now, t = .fetch now (.answered .notModified)

/-- The transaction forgets the failures of the row. -/
def Resets (l : Lifecycle) : Transaction → Prop
  | .fetch _ (.answered .success) => True
  | .fetch _ (.answered .notModified) => l.status = .broken
  | .reactivate _ => True
  | _ => False

/-- Nothing has failed after the answer had been dealt with. -/
def Plain : Transaction → Prop
  | .fetch _ (.spoiled _) => False
  | _ => True

end Transaction

/-- Pairs of transactions that may both load `l`, the first being the first to commit. -/
inductive Harmless (brokenThreshold deadDurationDays : Int) (l : Lifecycle) :
    Transaction → Transaction → Prop
  | limited {i j : Transaction} (h : i.Limited ∨ j.Limited) :
    Harmless brokenThreshold deadDurationDays l i j
  | unfailing {i j : Transaction} (hi : i.failure = none) (hj : j.failure = none) :
    Harmless brokenThreshold deadDurationDays l i j
  /-- The failure is overwritten in all three columns. -/
  | forgotten {now : Datetime} {code : ErrorCode} {j : Transaction} (hj : j.Resets l)
    (hcount : l.consecutiveFailures ≠ 0) (herror : l.lastErrorCode ≠ none)
    (hstatus : l.status = .active →
      l.fate brokenThreshold deadDurationDays now code = .active)
    (hconfirms : j.Confirms →
      l.fate brokenThreshold deadDurationDays now code = .broken) :
    Harmless brokenThreshold deadDurationDays l (.fetch now (.failed code)) j
  /-- There was nothing to forget. -/
  | failedOver {now : Datetime} {code : ErrorCode} {j : Transaction} (hj : j.Resets l)
    (hcount : l.consecutiveFailures = 0) (herror : l.lastErrorCode = none)
    (hstatus : (j.effect brokenThreshold deadDurationDays l).fate brokenThreshold
        deadDurationDays now code =
      if l.status = .active then l.fate brokenThreshold deadDurationDays now code else .active) :
    Harmless brokenThreshold deadDurationDays l (.fetch now (.failed code)) j
  /-- The failure is the first one, also for the one that counts it. -/
  | failedAfter {now : Datetime} {code : ErrorCode} {i : Transaction} (hi : i.Resets l)
    (hcount : l.consecutiveFailures = 0) (herror : l.lastErrorCode ≠ some code)
    (hstatus : (i.effect brokenThreshold deadDurationDays l).fate brokenThreshold
        deadDurationDays now code =
      if l.fate brokenThreshold deadDurationDays now code = l.status then .active
      else l.fate brokenThreshold deadDurationDays now code) :
    Harmless brokenThreshold deadDurationDays l i (.fetch now (.failed code))
  /-- The feed dies, and a confirmation does not revive it. -/
  | died {now : Datetime} {code : ErrorCode} {i : Transaction} (hi : i.Confirms)
    (hbroken : l.status = .broken)
    (hstatus : l.fate brokenThreshold deadDurationDays now code ≠ .broken)
    (herror : l.lastErrorCode ≠ some code) :
    Harmless brokenThreshold deadDurationDays l i (.fetch now (.failed code))
  /-- A confirmation of a feed that was not broken, and that the failure does not break. -/
  | confirmedLast {now : Datetime} {code : ErrorCode} {j : Transaction} (hj : j.Confirms)
    (hbroken : l.status ≠ .broken)
    (hstatus : l.fate brokenThreshold deadDurationDays now code = .broken →
      (j.effect brokenThreshold deadDurationDays l).fate brokenThreshold deadDurationDays now
        code = .broken) :
    Harmless brokenThreshold deadDurationDays l (.fetch now (.failed code)) j
  | confirmedFirst {now : Datetime} {code : ErrorCode} {i : Transaction} (hi : i.Confirms)
    (hbroken : l.status ≠ .broken)
    (hstatus : l.fate brokenThreshold deadDurationDays now code = .broken →
      (i.effect brokenThreshold deadDurationDays l).fate brokenThreshold deadDurationDays now
        code = .broken) :
    Harmless brokenThreshold deadDurationDays l i (.fetch now (.failed code))

/-- The health of a row that `i` and `j` have loaded before they commit, in this order. -/
def overlapped (brokenThreshold deadDurationDays : Int) (l : Lifecycle) (i j : Transaction) :
    Health :=
  Health.writeBack l.health (j.effect brokenThreshold deadDurationDays l).health
    (i.effect brokenThreshold deadDurationDays l).health

/-- One of the two orders leaves the same health. -/
def Orderly (brokenThreshold deadDurationDays : Int) (l : Lifecycle) (i j : Transaction) : Prop :=
  overlapped brokenThreshold deadDurationDays l i j =
      (j.effect brokenThreshold deadDurationDays
        (i.effect brokenThreshold deadDurationDays l)).health ∨
    overlapped brokenThreshold deadDurationDays l i j =
      (i.effect brokenThreshold deadDurationDays
        (j.effect brokenThreshold deadDurationDays l)).health

/-! ## The effects -/

namespace Transaction

variable {T D : Int} {l : Lifecycle} {t i j : Transaction}

@[simp] theorem effect_failed (now : Datetime) (code : ErrorCode) :
    ((fetch now (.failed code)).effect T D l).health =
      l.health.failed (l.fate T D now code) code :=
  congrArg Lifecycle.health (Mark.apply_failure T D now code l)

theorem effect_of_resets (h : t.Resets l) : (t.effect T D l).health = Health.sound := by
  rcases t with ⟨now, _ | _ | _⟩ | now
  · rename_i a
    cases a with
    | success => exact congrArg Lifecycle.health (Mark.apply_success now l)
    | notModified => exact congrArg Lifecycle.health (Mark.apply_notModified_of_broken now h)
    | rateLimited => cases h
  · cases h
  · cases h
  · exact congrArg Lifecycle.health (Mark.apply_reactivate l)

theorem effect_of_confirms (h : t.Confirms) (hl : l.status ≠ .broken) :
    (t.effect T D l).health = l.health := by
  obtain ⟨now, rfl⟩ := h
  have heffect : (fetch now (.answered .notModified)).effect T D l =
      { l with lastSuccessfulFetchAt := some now } := Mark.apply_notModified_of_ne now hl
  rw [heffect]
  rfl

theorem resets_of_confirms (h : t.Confirms) (hl : l.status = .broken) : t.Resets l := by
  obtain ⟨now, rfl⟩ := h
  exact hl

/-- Only a confirmation forgets the failures of one row and not those of another. -/
theorem Resets.confirms {l' : Lifecycle} (h : t.Resets l) (h' : ¬t.Resets l') :
    t.Confirms ∧ l.status = .broken ∧ l'.status ≠ .broken := by
  rcases t with ⟨now, _ | _ | _⟩ | now
  · rename_i a
    cases a with
    | success => exact absurd trivial h'
    | notModified => exact ⟨⟨now, rfl⟩, h, h'⟩
    | rateLimited => cases h
  · cases h
  · cases h
  · exact absurd trivial h'

/-- A transaction without a failure forgets the failures, confirms, or is answered 429. -/
theorem cases_of_unfailing (h : t.failure = none) (l : Lifecycle) :
    t.Limited ∨ t.Resets l ∨ t.Confirms ∧ l.status ≠ .broken := by
  rcases t with ⟨now, _ | _ | _⟩ | now
  · rename_i a
    cases a with
    | success => exact .inr (.inl trivial)
    | notModified =>
        by_cases hl : l.status = .broken
        · exact .inr (.inl hl)
        · exact .inr (.inr ⟨⟨now, rfl⟩, hl⟩)
    | rateLimited => exact .inl ⟨now, rfl⟩
  · cases h
  · cases h
  · exact .inr (.inl trivial)

/-- A transaction without a failure, which is not answered 429, finds nothing to do on a sound
row. -/
theorem effect_of_sound (h : t.failure = none) (hlimited : ¬t.Limited)
    (hl : l.health = Health.sound) : (t.effect T D l).health = Health.sound := by
  have hactive : l.status = .active := congrArg Health.status hl
  rcases cases_of_unfailing h l with hlim | hresets | ⟨hconfirms, hne⟩
  · exact absurd hlim hlimited
  · exact effect_of_resets hresets
  · rw [effect_of_confirms hconfirms hne, hl]

theorem effect_graded (hT : 1 ≤ T) (t : Transaction) (h : l.health.Graded T) :
    (t.effect T D l).health.Graded T := by
  unfold effect
  induction t.marks generalizing l with
  | nil => exact h
  | cons m ms ih => exact ih (m.graded hT h)

/-- A transaction leaves the error code alone, or sets it whatever it was. -/
theorem effect_withError (t : Transaction) (l : Lifecycle) :
    (∀ e, t.effect T D (l.withError e) = (t.effect T D l).withError e) ∨
      ∀ e, t.effect T D (l.withError e) = t.effect T D l := by
  unfold effect
  induction t.marks generalizing l with
  | nil => exact .inl fun _ ↦ rfl
  | cons m ms ih =>
      simp only [List.foldl_cons]
      rcases m.apply_withError (T := T) (D := D) l with hm | hm
      · simp only [hm]
        exact ih _
      · simp only [hm]
        exact .inr fun _ ↦ trivial

end Transaction

/-! ## Harmless overlaps -/

section

variable {T D : Int} {l : Lifecycle} {i j : Transaction} {now : Datetime} {code : ErrorCode}

/-- A 429 changes nothing but the error code, on which nothing depends. -/
theorem orderly_of_limited (h : i.Limited ∨ j.Limited) : Orderly T D l i j := by
  rcases h with ⟨now, rfl⟩ | ⟨now, rfl⟩
  · have hover : overlapped T D l (.fetch now (.answered .rateLimited)) j =
        { (j.effect T D l).health with
          lastErrorCode := Logic.writeBack l.lastErrorCode (j.effect T D l).lastErrorCode
            (some .rateLimited) } := by
      ext1
      · exact Logic.writeBack_current
      · exact Logic.writeBack_current
      · rfl
    by_cases he : (j.effect T D l).lastErrorCode = l.lastErrorCode
    · right
      rw [hover, he, Logic.writeBack_unchanged]
      rfl
    · left
      rw [hover, Logic.writeBack_of_ne he]
      rcases j.effect_withError (T := T) (D := D) l with hj | hj
      · exact absurd (congrArg Lifecycle.lastErrorCode (hj l.lastErrorCode)) he
      · exact congrArg Lifecycle.health (hj (some .rateLimited)).symm
  · have hover : overlapped T D l i (.fetch now (.answered .rateLimited)) =
        { (i.effect T D l).health with
          lastErrorCode := Logic.writeBack l.lastErrorCode (some .rateLimited)
            (i.effect T D l).lastErrorCode } := by
      ext1
      · exact Logic.writeBack_unchanged
      · exact Logic.writeBack_unchanged
      · rfl
    by_cases he : l.lastErrorCode = some .rateLimited
    · right
      have hsame : (Transaction.fetch now (.answered .rateLimited)).effect T D l = l :=
        congrArg l.withError he.symm
      rw [hsame, hover, he, Logic.writeBack_unchanged]
      rfl
    · left
      rw [hover, Logic.writeBack_of_ne (Ne.symm he)]
      rfl

theorem orderly_of_unfailing (hi : i.failure = none) (hj : j.failure = none) :
    Orderly T D l i j := by
  by_cases hlimited : i.Limited ∨ j.Limited
  · exact orderly_of_limited hlimited
  obtain ⟨hli, hlj⟩ := not_or.mp hlimited
  rcases (Transaction.cases_of_unfailing hi l).resolve_left hli with hri | ⟨hci, hne⟩
  · left
    have hfirst : (i.effect T D l).health = Health.sound := Transaction.effect_of_resets hri
    rw [overlapped, Transaction.effect_of_sound hj hlj hfirst, hfirst]
    rcases (Transaction.cases_of_unfailing hj l).resolve_left hlj with hrj | ⟨hcj, hne⟩
    · rw [Transaction.effect_of_resets hrj, Health.writeBack_self]
    · rw [Transaction.effect_of_confirms hcj hne, Health.writeBack_unchanged]
  · have hfirst : (i.effect T D l).health = l.health := Transaction.effect_of_confirms hci hne
    rw [Orderly, overlapped, hfirst, Health.writeBack_current]
    rcases (Transaction.cases_of_unfailing hj l).resolve_left hlj with hrj | ⟨hcj, -⟩
    · right
      have hlast : (j.effect T D l).health = Health.sound := Transaction.effect_of_resets hrj
      rw [Transaction.effect_of_sound hi hli hlast, hlast]
    · left
      have hne' : (i.effect T D l).status ≠ .broken := by
        rw [show (i.effect T D l).status = l.status from congrArg Health.status hfirst]
        exact hne
      rw [Transaction.effect_of_confirms hcj hne', hfirst, Transaction.effect_of_confirms hcj hne]

/-- A failure that is committed before a reset of the same row. -/
theorem orderly_failed_reset_iff (hj : j.Resets l) :
    Orderly T D l (.fetch now (.failed code)) j ↔
      (l.consecutiveFailures ≠ 0 ∧ l.lastErrorCode ≠ none ∧
        (l.status = .active → l.fate T D now code = .active) ∧
        (j.Confirms → l.fate T D now code = .broken)) ∨
      (l.consecutiveFailures = 0 ∧ l.lastErrorCode = none ∧
        (j.effect T D l).fate T D now code =
          if l.status = .active then l.fate T D now code else .active) := by
  have hover : overlapped T D l (.fetch now (.failed code)) j =
      Health.writeBack l.health .sound (l.health.failed (l.fate T D now code) code) := by
    rw [overlapped, Transaction.effect_of_resets hj, Transaction.effect_failed]
  have hafter : ((Transaction.fetch now (.failed code)).effect T D (j.effect T D l)).health =
      Health.sound.failed ((j.effect T D l).fate T D now code) code := by
    rw [Transaction.effect_failed, Transaction.effect_of_resets hj]
  rw [Orderly, hover, hafter, Health.writeBack_reset_eq_failed_iff]
  refine or_congr ?_ Iff.rfl
  have hfailed := Transaction.effect_failed (T := T) (D := D) (l := l) now code
  generalize (Transaction.fetch now (.failed code)).effect T D l = b at hfailed ⊢
  have hstatus : b.status = l.fate T D now code := congrArg Health.status hfailed
  by_cases hlast : j.Resets b
  · rw [Transaction.effect_of_resets hlast, Health.writeBack_reset_eq_sound_iff]
    refine and_congr_right fun _ ↦ and_congr_right fun _ ↦ (and_iff_left ?_).symm
    rintro ⟨_, rfl⟩
    exact hstatus.symm.trans hlast
  · -- a confirmation that meets a dead feed
    obtain ⟨hconfirms, hbroken, hne⟩ := hj.confirms hlast
    refine iff_of_false (fun h ↦ ?_) fun h ↦ hne (hstatus.trans (h.2.2.2 hconfirms))
    rw [Transaction.effect_of_confirms hconfirms hne, hfailed] at h
    have hne : l.status ≠ .active := by
      rw [hbroken]
      exact nofun
    have hfate : FeedStatus.active = l.fate T D now code :=
      (Logic.writeBack_of_ne hne.symm).symm.trans (congrArg Health.status h)
    exact Lifecycle.fate_ne_active hne hfate.symm

/-- A failure that is committed after a reset of the same row. -/
theorem orderly_reset_failed_iff (hi : i.Resets l) :
    Orderly T D l i (.fetch now (.failed code)) ↔
      (l.consecutiveFailures = 0 ∧ l.lastErrorCode ≠ some code ∧
        (i.effect T D l).fate T D now code =
          if l.fate T D now code = l.status then .active else l.fate T D now code) ∨
      Health.writeBack l.health (l.health.failed (l.fate T D now code) code) .sound =
        (i.effect T D ((Transaction.fetch now (.failed code)).effect T D l)).health := by
  have hover : overlapped T D l i (.fetch now (.failed code)) =
      Health.writeBack l.health (l.health.failed (l.fate T D now code) code) .sound := by
    rw [overlapped, Transaction.effect_of_resets hi, Transaction.effect_failed]
  have hafter : ((Transaction.fetch now (.failed code)).effect T D (i.effect T D l)).health =
      Health.sound.failed ((i.effect T D l).fate T D now code) code := by
    rw [Transaction.effect_failed, Transaction.effect_of_resets hi]
  rw [Orderly, hover, hafter, Health.writeBack_failed_eq_failed_iff]
  rfl

theorem orderly_of_died (hi : i.Confirms) (hbroken : l.status = .broken)
    (hstatus : l.fate T D now code ≠ .broken) (herror : l.lastErrorCode ≠ some code) :
    Orderly T D l i (.fetch now (.failed code)) := by
  refine (orderly_reset_failed_iff (Transaction.resets_of_confirms hi hbroken)).mpr (.inr ?_)
  have hfailed := Transaction.effect_failed (T := T) (D := D) (l := l) now code
  have hlast : ((Transaction.fetch now (.failed code)).effect T D l).status ≠ .broken :=
    fun hb ↦ hstatus ((congrArg Health.status hfailed).symm.trans hb)
  rw [Transaction.effect_of_confirms hi hlast, hfailed, Health.writeBack_failed_eq]
  ext1
  · exact if_neg fun h ↦ hstatus (h.trans hbroken)
  · rfl
  · exact if_neg herror

/-- A confirmation and a failure of a feed that was not broken. -/
theorem confirms_failed_iff {t : Transaction} (ht : t.Confirms) (hne : l.status ≠ .broken) :
    (l.health.failed (l.fate T D now code) code =
        (t.effect T D ((Transaction.fetch now (.failed code)).effect T D l)).health ∨
      l.health.failed (l.fate T D now code) code =
        ((Transaction.fetch now (.failed code)).effect T D (t.effect T D l)).health) ↔
      (l.fate T D now code = .broken → (t.effect T D l).fate T D now code = .broken) := by
  have hconfirmed : (t.effect T D l).health = l.health := Transaction.effect_of_confirms ht hne
  have hfailed := Transaction.effect_failed (T := T) (D := D) (l := l) now code
  have hstatus : ((Transaction.fetch now (.failed code)).effect T D l).status =
      l.fate T D now code := congrArg Health.status hfailed
  rw [Transaction.effect_failed, hconfirmed]
  constructor
  · rintro (h | h) hbroken
    · rw [Transaction.effect_of_resets
        (Transaction.resets_of_confirms ht (hstatus.trans hbroken))] at h
      have hactive : l.fate T D now code = .active := congrArg Health.status h
      rw [hbroken] at hactive
      cases hactive
    · exact (congrArg Health.status h).symm.trans hbroken
  · intro h
    by_cases hbroken : l.fate T D now code = .broken
    · right
      rw [hbroken, h hbroken]
    · left
      rw [Transaction.effect_of_confirms ht fun hb ↦ hbroken (hstatus.symm.trans hb), hfailed]

theorem orderly_confirms_last_iff (hj : j.Confirms) (hne : l.status ≠ .broken) :
    Orderly T D l (.fetch now (.failed code)) j ↔
      (l.fate T D now code = .broken → (j.effect T D l).fate T D now code = .broken) := by
  rw [← confirms_failed_iff hj hne, Orderly, overlapped, Transaction.effect_of_confirms hj hne,
    Health.writeBack_unchanged, ← Transaction.effect_failed]

theorem orderly_confirms_first_iff (hi : i.Confirms) (hne : l.status ≠ .broken) :
    Orderly T D l i (.fetch now (.failed code)) ↔
      (l.fate T D now code = .broken → (i.effect T D l).fate T D now code = .broken) := by
  rw [← confirms_failed_iff hi hne, Orderly, overlapped, Transaction.effect_of_confirms hi hne,
    Health.writeBack_current, ← Transaction.effect_failed, or_comm]

/-- Two failures are counted as one. -/
theorem not_orderly_of_failed {now' : Datetime} {code' : ErrorCode} :
    ¬Orderly T D l (.fetch now (.failed code)) (.fetch now' (.failed code')) := by
  have hover : (overlapped T D l (.fetch now (.failed code))
      (.fetch now' (.failed code'))).consecutiveFailures = l.consecutiveFailures + 1 :=
    Logic.writeBack_self
  rintro (h | h)
  all_goals
    have hcount : l.consecutiveFailures + 1 = l.consecutiveFailures + 1 + 1 :=
      hover.symm.trans (congrArg Health.consecutiveFailures h)
    omega

/-- A harmless pair leaves the row as one of its orders does. -/
theorem Harmless.orderly (h : Harmless T D l i j) : Orderly T D l i j := by
  cases h with
  | limited h => exact orderly_of_limited h
  | unfailing hi hj => exact orderly_of_unfailing hi hj
  | forgotten hj hcount herror hstatus hconfirms =>
      exact (orderly_failed_reset_iff hj).mpr (.inl ⟨hcount, herror, hstatus, hconfirms⟩)
  | failedOver hj hcount herror hstatus =>
      exact (orderly_failed_reset_iff hj).mpr (.inr ⟨hcount, herror, hstatus⟩)
  | failedAfter hi hcount herror hstatus =>
      exact (orderly_reset_failed_iff hi).mpr (.inl ⟨hcount, herror, hstatus⟩)
  | died hi hbroken hstatus herror => exact orderly_of_died hi hbroken hstatus herror
  | confirmedLast hj hbroken hstatus => exact (orderly_confirms_last_iff hj hbroken).mpr hstatus
  | confirmedFirst hi hbroken hstatus => exact (orderly_confirms_first_iff hi hbroken).mpr hstatus

theorem Transaction.exists_of_failure {t : Transaction} (ht : t.Plain) (h : t.failure ≠ none) :
    ∃ now code, t = .fetch now (.failed code) := by
  rcases t with ⟨now, _ | code | _⟩ | now
  · exact absurd rfl h
  · exact ⟨now, code, rfl⟩
  · cases ht
  · exact absurd rfl h

/-- A reset that runs after the failure would have kept one that it finds. -/
theorem harmless_of_reset_last (hi : i.Resets l) (h0 : 0 ≤ l.consecutiveFailures)
    (h : Health.writeBack l.health (l.health.failed (l.fate T D now code) code) .sound =
      (i.effect T D ((Transaction.fetch now (.failed code)).effect T D l)).health) :
    Harmless T D l i (.fetch now (.failed code)) := by
  have hfailed := Transaction.effect_failed (T := T) (D := D) (l := l) now code
  generalize (Transaction.fetch now (.failed code)).effect T D l = b at hfailed h
  have hstatus : b.status = l.fate T D now code := congrArg Health.status hfailed
  rw [Health.writeBack_failed_eq] at h
  by_cases hlast : i.Resets b
  · rw [Transaction.effect_of_resets hlast] at h
    have hcount : l.consecutiveFailures + 1 = 0 := congrArg Health.consecutiveFailures h
    omega
  · obtain ⟨hconfirms, hbroken, hne⟩ := hi.confirms hlast
    rw [Transaction.effect_of_confirms hconfirms hne, hfailed] at h
    refine .died hconfirms hbroken (hstatus ▸ hne) fun he ↦ ?_
    have herror : none = some code := (if_pos he).symm.trans (congrArg Health.lastErrorCode h)
    cases herror

/-- Without spoiled answers there are no other orderly pairs. -/
theorem Orderly.harmless (hi : i.Plain) (hj : j.Plain) (h0 : 0 ≤ l.consecutiveFailures)
    (h : Orderly T D l i j) : Harmless T D l i j := by
  by_cases hif : i.failure = none
  · by_cases hjf : j.failure = none
    · exact .unfailing hif hjf
    obtain ⟨now, code, rfl⟩ := Transaction.exists_of_failure hj hjf
    rcases Transaction.cases_of_unfailing hif l with hlimited | hresets | ⟨hconfirms, hne⟩
    · exact .limited (.inl hlimited)
    · rcases (orderly_reset_failed_iff hresets).mp h with ⟨hcount, herror, hstatus⟩ | h
      · exact .failedAfter hresets hcount herror hstatus
      · exact harmless_of_reset_last hresets h0 h
    · exact .confirmedFirst hconfirms hne ((orderly_confirms_first_iff hconfirms hne).mp h)
  · obtain ⟨now, code, rfl⟩ := Transaction.exists_of_failure hi hif
    by_cases hjf : j.failure = none
    · rcases Transaction.cases_of_unfailing hjf l with hlimited | hresets | ⟨hconfirms, hne⟩
      · exact .limited (.inr hlimited)
      · rcases (orderly_failed_reset_iff hresets).mp h with
          ⟨hcount, herror, hstatus, hconfirms⟩ | ⟨hcount, herror, hstatus⟩
        · exact .forgotten hresets hcount herror hstatus hconfirms
        · exact .failedOver hresets hcount herror hstatus
      · exact .confirmedLast hconfirms hne ((orderly_confirms_last_iff hconfirms hne).mp h)
    · obtain ⟨now', code', rfl⟩ := Transaction.exists_of_failure hj hjf
      exact absurd h not_orderly_of_failed

end

end FeedgateFetcher
