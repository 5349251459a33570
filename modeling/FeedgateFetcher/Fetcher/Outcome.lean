import FeedgateFetcher.Fetcher.Branches

/-!
# How a fetch ends

`fetch_one` seen from the lifecycle machine.  A call puts at most two marks on
the row: the one of the answer it got, and the one of a failure, which may come
after the first because the tail of each branch can still raise.
-/

namespace FeedgateFetcher

open Python Logic

/-! ## Histories -/

/-- A lifecycle and the transitions that led to it. -/
abbrev History := Lifecycle × List Transition

/-- A mark on a history. -/
def Mark.run (brokenThreshold deadDurationDays : Int) (m : Mark) (p : History) : History :=
  (m.apply brokenThreshold deadDurationDays p.1,
    p.2 ++ m.transitions brokenThreshold deadDurationDays p.1)

/-- A history grows by linked, legal transitions. -/
def Lawful (deadDurationDays : Int) (c : Circumstance) (p q : History) : Prop :=
  ∃ ts, q.2 = p.2 ++ ts ∧ Linked p.1.status ts q.1.status ∧
    ∀ t ∈ ts, Legal deadDurationDays c t.source t.target

namespace Lawful

variable {brokenThreshold deadDurationDays : Int} {c : Circumstance} {p q r : History}

theorem refl (p : History) : Lawful deadDurationDays c p p :=
  ⟨[], (List.append_nil _).symm, .nil _, nofun⟩

theorem trans (h : Lawful deadDurationDays c p q) (h' : Lawful deadDurationDays c q r) :
    Lawful deadDurationDays c p r := by
  obtain ⟨ts, hq, hts, hl⟩ := h
  obtain ⟨us, hr, hus, hl'⟩ := h'
  refine ⟨ts ++ us, by rw [hr, hq, List.append_assoc], hts.append hus, fun t ht ↦ ?_⟩
  exact (List.mem_append.mp ht).elim (hl t) (hl' t)

/-- A mark is lawful, also when the comparison with `dead_duration_days` fails. -/
theorem mark {m : Mark} {d : Int} (hd : d = deadDurationDays ∨ d = unreachableDays)
    (hc : ∀ now code, m = .failure now code → c = ⟨some code, p.1.elapsed now⟩) :
    Lawful deadDurationDays c p (m.run brokenThreshold d p) := by
  refine ⟨_, rfl, m.linked p.1, fun t ht ↦ Mark.legal brokenThreshold hc ?_⟩
  rcases hd with rfl | rfl
  · exact ht
  · exact Mark.transitions_unreachableDays_subset m p.1 ht

end Lawful

/-- The history of the loaded row. -/
def FetchState.history (s : FetchState) : History := (s.feed.lifecycle, s.row.transitions)

/-! ## The lifecycle view of the branches -/

/-- The answers that `fetch_one` has a bookkeeping for. -/
inductive Answered where
  | success
  | notModified
  | rateLimited
deriving DecidableEq, Repr

namespace Answered

def mark (now : Datetime) : Answered → Mark
  | .success => .success now
  | .notModified => .notModified now
  | .rateLimited => .rateLimited

def result : Answered → FetchResult
  | .success => .success
  | .notModified => .notModified
  | .rateLimited => .rateLimited

end Answered

/-- The answer that an exchange stands for. -/
def Exchange.answered : Exchange → Answered
  | .notModified _ => .notModified
  | .rateLimited _ => .rateLimited
  | .document _ _ => .success

/-- Whether a branch comes to the bookkeeping of its answer. -/
def bookkept (up : Upstream) (cfg : Settings) (now : Datetime) (s : FetchState) :
    Exchange → Bool
  | .notModified _ => true
  | .rateLimited headers => (parseRetryAfter (headers.get "retry-after".toList) now).isOk
  | .document headers body =>
    !isNotAFeedContentType (headers.get "content-type".toList) &&
      match parseFeed up.feedparser body with
      | .error _ => false
      | .ok parsed => (storeEntries up cfg now parsed.entries s).1.isOk

/-- The exception is raised before any bookkeeping. -/
def Silent (s : FetchState) (r : Except Exc Flow) (t : FetchState) : Prop :=
  (∃ exc, r = .error exc) ∧ t.history = s.history ∧ t.observed = s.observed

/-- The bookkeeping of an answer is done; the answer is reported unless an
exception of the language is raised afterwards. -/
def Recorded (cfg : Settings) (now : Datetime) (a : Answered) (s : FetchState)
    (r : Except Exc Flow) (t : FetchState) : Prop :=
  t.history = (a.mark now).run cfg.brokenThreshold cfg.deadDurationDays s.history ∧
    ((∃ flow, r = .ok flow) ∧ t.observed = s.observed ++ [a.result] ∨
      (∃ e, r = .error (.builtin e)) ∧ t.observed = s.observed)

/-- The branch comes to the bookkeeping of its answer exactly when `b` says so. -/
def Concluded (cfg : Settings) (now : Datetime) (a : Answered) (s : FetchState) :
    Bool → Except Exc Flow → FetchState → Prop
  | true => Recorded cfg now a s
  | false => Silent s

section

variable {up : Upstream} {cfg : Settings} {now : Datetime} {weekly : Nat}

theorem handleNotModified_recorded (up : Upstream) (cfg : Settings) (now : Datetime)
    (weekly : Nat) (headers : Headers) (s : FetchState) :
    Act.Ensures (handleNotModified up cfg now weekly headers) s
      (Recorded cfg now .notModified s) := by
  unfold Act.Ensures
  cases hh : parseCacheHint headers now with
  | error e =>
      rw [handleNotModified_of_hint_error hh]
      exact ⟨rfl, .inr ⟨⟨e, rfl⟩, rfl⟩⟩
  | ok hint =>
      rw [handleNotModified_of_hint hh]
      cases computeNextFetchAt cfg (s.mark cfg (.notModified now)).feed now hint weekly
          up.draw with
      | error e => exact ⟨rfl, .inr ⟨⟨e, rfl⟩, rfl⟩⟩
      | ok next => exact ⟨rfl, .inl ⟨⟨_, rfl⟩, rfl⟩⟩

theorem handleRateLimited_concluded (headers : Headers) (s : FetchState) :
    Act.Ensures (handleRateLimited cfg now headers) s
      (Concluded cfg now .rateLimited s (bookkept up cfg now s (.rateLimited headers))) := by
  unfold Act.Ensures bookkept
  dsimp only
  cases hh : parseRetryAfter (headers.get "retry-after".toList) now with
  | error e =>
      rw [handleRateLimited_of_error hh]
      exact ⟨⟨_, rfl⟩, rfl, rfl⟩
  | ok retryAfter =>
      rw [handleRateLimited_of_ok hh]
      cases addWholeSeconds now (max (retryAfter.getD 0) cfg.fetchIntervalSeconds) with
      | error e => exact ⟨rfl, .inr ⟨⟨e, rfl⟩, rfl⟩⟩
      | ok next => exact ⟨rfl, .inl ⟨⟨_, rfl⟩, rfl⟩⟩

theorem FetchState.succeed_history (cfg : Settings) (now : Datetime) (title : Option Text)
    (headers : Headers) (s : FetchState) :
    (s.succeed cfg now title headers).history =
      (Mark.success now).run cfg.brokenThreshold cfg.deadDurationDays s.history := by
  have h := Feed.retitle_lifecycle title s.feed
  change ((Mark.success now).apply _ _ (s.feed.retitle title).lifecycle,
    s.row.transitions ++ (Mark.success now).transitions _ _ (s.feed.retitle title).lifecycle) = _
  rw [h]
  rfl

theorem storeDocument_concluded (headers : Headers) (body : Bytes) (s : FetchState) :
    Act.Ensures (storeDocument up cfg now headers body) s
      (Concluded cfg now .success s (bookkept up cfg now s (.document headers body))) := by
  unfold Act.Ensures bookkept
  dsimp only
  cases hct : isNotAFeedContentType (headers.get "content-type".toList) with
  | true =>
      rw [storeDocument_of_html hct]
      exact ⟨⟨_, rfl⟩, rfl, rfl⟩
  | false =>
      cases hp : parseFeed up.feedparser body with
      | error exc =>
          rw [storeDocument_of_parse_error hct hp]
          exact ⟨⟨_, rfl⟩, rfl, rfl⟩
      | ok parsed =>
          have hkeep := keeps_storeEntries (p := fun s ↦ (s.history, s.observed)) up cfg now
            (fun _ _ ↦ rfl) parsed.entries s
          rcases hs : storeEntries up cfg now parsed.entries s with ⟨r, t⟩
          rw [hs] at hkeep
          have hlife : t.history = s.history := congrArg Prod.fst hkeep
          have hobs : t.observed = s.observed := congrArg Prod.snd hkeep
          cases r with
          | error exc =>
              rw [storeDocument_of_store_error hct hp hs]
              simp only [hs]
              exact ⟨⟨_, rfl⟩, hlife, hobs⟩
          | ok _ =>
              rw [storeDocument_of_stored hct hp hs]
              simp only [hs]
              have hsucc := t.succeed_history cfg now parsed.title headers
              rw [hlife] at hsucc
              cases parseCacheHint headers now with
              | error e => exact ⟨hsucc, .inr ⟨⟨e, rfl⟩, hobs⟩⟩
              | ok hint => exact ⟨hsucc, .inl ⟨⟨_, rfl⟩, congrArg (· ++ [_]) hobs⟩⟩

/-! ## The `try` block and the call -/

theorem history_eq_of_account_eq {s t : FetchState} (h : t.account = s.account) :
    t.history = s.history := by
  have hf := congrArg (fun a : Account ↦ (a.feed.lifecycle, a.transitions)) h
  exact hf

theorem respond_concluded (up : Upstream) (cfg : Settings) (now : Datetime) (weekly : Nat)
    (x : Exchange) (s : FetchState) :
    Act.Ensures (respond up cfg now weekly x) s
      (Concluded cfg now x.answered s (bookkept up cfg now s x)) := by
  cases x with
  | notModified headers => exact handleNotModified_recorded up cfg now weekly headers s
  | rateLimited headers => exact handleRateLimited_concluded headers s
  | document headers body => exact storeDocument_concluded headers body s

end

/-! ## Outcomes -/

/-- What a call of `fetch_one` amounts to: it deals with an answer, it records a
failure, or it does both. -/
inductive Outcome where
  | answered (a : Answered)
  | failed (code : ErrorCode)
  | spoiled (a : Answered)
deriving DecidableEq, Repr

namespace Outcome

/-- The answer that a call deals with. -/
def answer : Outcome → Option Answered
  | .answered a => some a
  | .failed _ => none
  | .spoiled a => some a

/-- The failure that a call records.  What spoils an answer is an exception of the
language. -/
def failure : Outcome → Option ErrorCode
  | .answered _ => none
  | .failed code => some code
  | .spoiled _ => some .other

/-- The marks of the `try` block. -/
def before (now : Datetime) (o : Outcome) : List Mark := (o.answer.map (Answered.mark now)).toList

/-- The marks of a call. -/
def marks (now : Datetime) (o : Outcome) : List Mark :=
  o.before now ++ (o.failure.map (Mark.failure now)).toList

def result : Outcome → FetchResult
  | .answered a => a.result
  | .failed code => .error code
  | .spoiled _ => .error .other

end Outcome

/-- Marks one after the other. -/
def runMarks (brokenThreshold deadDurationDays : Int) (ms : List Mark) (p : History) : History :=
  ms.foldl (fun p m ↦ m.run brokenThreshold deadDurationDays p) p

theorem runMarks_append (brokenThreshold deadDurationDays : Int) (ms ms' : List Mark)
    (p : History) :
    runMarks brokenThreshold deadDurationDays (ms ++ ms') p =
      runMarks brokenThreshold deadDurationDays ms'
        (runMarks brokenThreshold deadDurationDays ms p) := List.foldl_append

/-- What the branch for `x` amounts to. -/
def respondOutcome (up : Upstream) (cfg : Settings) (now : Datetime) (weekly : Nat) (x : Exchange)
    (s : FetchState) : Outcome :=
  match (respond up cfg now weekly x s).1 with
  | .ok _ => .answered x.answered
  | .error exc =>
    if bookkept up cfg now s x then .spoiled x.answered else .failed (classifyError exc)

/-- What the `try` block amounts to. -/
def attemptOutcome (up : Upstream) (cfg : Settings) (now : Datetime) (weekly : Nat)
    (s : FetchState) : Outcome :=
  match contact up cfg s with
  | (.error exc, _) => .failed (classifyError exc)
  | (.ok x, t) => respondOutcome up cfg now weekly x t

/-- What a call amounts to, when it reaches the `try` block. -/
def outcomeOf (up : Upstream) (cfg : Settings) (now : Datetime) (s : FetchState) :
    Option Outcome :=
  match prepare up now s with
  | (.error _, _) => none
  | (.ok weekly, t) => some (attemptOutcome up cfg now weekly t)

/-- The code that the `except` clause of a call records, when it is reached. -/
def failureCode (up : Upstream) (cfg : Settings) (now : Datetime) (s : FetchState) :
    Option ErrorCode :=
  match prepare up now s with
  | (.error _, _) => none
  | (.ok weekly, t) => match (attempt up cfg now weekly t).1 with
    | .error exc => some (classifyError exc)
    | .ok _ => none

/-- The answer that a call receives, when the exchange succeeds. -/
def answerOf (up : Upstream) (cfg : Settings) (now : Datetime) (s : FetchState) :
    Option Exchange :=
  match prepare up now s with
  | (.error _, _) => none
  | (.ok _, t) => match (contact up cfg t).1 with
    | .error _ => none
    | .ok x => some x

/-- The state and the result of the `try` block are those of the outcome. -/
structure Leaves (cfg : Settings) (now : Datetime) (o : Outcome) (s : FetchState)
    (r : Except Exc Flow) (t : FetchState) : Prop where
  history : t.history =
    runMarks cfg.brokenThreshold cfg.deadDurationDays (o.before now) s.history
  reported : ∀ flow, r = .ok flow → o.failure = none ∧ t.observed = s.observed ++ [o.result]
  raised : ∀ exc, r = .error exc → o.failure = some (classifyError exc) ∧
    o.result = .error (classifyError exc) ∧ t.observed = s.observed

section

variable {up : Upstream} {cfg : Settings} {now : Datetime} {weekly : Nat} {s t : FetchState}

theorem respondOutcome_of_ok {x : Exchange} {flow : Flow}
    (h : respond up cfg now weekly x s = (.ok flow, t)) :
    respondOutcome up cfg now weekly x s = .answered x.answered := by
  unfold respondOutcome
  rw [h]

theorem respondOutcome_of_error {x : Exchange} {exc : Exc}
    (h : respond up cfg now weekly x s = (.error exc, t)) :
    respondOutcome up cfg now weekly x s =
      if bookkept up cfg now s x then .spoiled x.answered else .failed (classifyError exc) := by
  unfold respondOutcome
  rw [h]

theorem attemptOutcome_of_error {exc : Exc} (h : contact up cfg s = (.error exc, t)) :
    attemptOutcome up cfg now weekly s = .failed (classifyError exc) := by
  unfold attemptOutcome
  rw [h]

theorem attemptOutcome_of_ok {x : Exchange} (h : contact up cfg s = (.ok x, t)) :
    attemptOutcome up cfg now weekly s = respondOutcome up cfg now weekly x t := by
  unfold attemptOutcome
  rw [h]

theorem respond_leaves (x : Exchange) {r : Except Exc Flow}
    (h : respond up cfg now weekly x s = (r, t)) :
    Leaves cfg now (respondOutcome up cfg now weekly x s) s r t := by
  have hr := respond_concluded up cfg now weekly x s
  rw [Act.ensures_of_run h] at hr
  cases hb : bookkept up cfg now s x with
  | true =>
      rw [hb] at hr
      obtain ⟨hlife, ⟨⟨flow, rfl⟩, hobs⟩ | ⟨⟨e, rfl⟩, hobs⟩⟩ := hr
      · rw [respondOutcome_of_ok h]
        exact ⟨hlife, fun _ _ ↦ ⟨rfl, hobs⟩, nofun⟩
      · rw [respondOutcome_of_error h, hb]
        refine ⟨hlife, nofun, ?_⟩
        rintro _ ⟨⟩
        exact ⟨rfl, rfl, hobs⟩
  | false =>
      rw [hb] at hr
      obtain ⟨⟨exc, rfl⟩, hlife, hobs⟩ := hr
      rw [respondOutcome_of_error h, hb]
      refine ⟨hlife, nofun, ?_⟩
      rintro _ ⟨⟩
      exact ⟨rfl, rfl, hobs⟩

theorem attempt_leaves {r : Except Exc Flow} (h : attempt up cfg now weekly s = (r, t)) :
    Leaves cfg now (attemptOutcome up cfg now weekly s) s r t := by
  rw [attempt_eq] at h
  rcases hc : contact up cfg s with ⟨exc | x, s'⟩
  all_goals
    have hk := (keeps_account_contact up cfg).eq_of_run hc
    have hlife : s'.history = s.history := history_eq_of_account_eq hk
    have hobs : s'.observed = s.observed := congrArg Account.observed hk
  · rw [Act.bind_of_error hc] at h
    cases h
    rw [attemptOutcome_of_error hc]
    refine ⟨hlife, nofun, ?_⟩
    rintro _ ⟨⟩
    exact ⟨rfl, rfl, hobs⟩
  · rw [Act.bind_of_ok hc] at h
    rw [attemptOutcome_of_ok hc]
    have hl := respond_leaves x h
    exact ⟨by rw [hl.history, hlife], fun flow hf ↦ hobs ▸ hl.reported flow hf,
      fun exc he ↦ hobs ▸ hl.raised exc he⟩

theorem outcomeOf_of_ok {s₁ : FetchState} (hp : prepare up now s = (.ok weekly, s₁)) :
    outcomeOf up cfg now s = some (attemptOutcome up cfg now weekly s₁) := by
  unfold outcomeOf
  rw [hp]

/-- The failure of the outcome is the one that the `except` clause records. -/
theorem failureCode_eq (up : Upstream) (cfg : Settings) (now : Datetime) (s : FetchState) :
    failureCode up cfg now s = (outcomeOf up cfg now s).bind Outcome.failure := by
  unfold failureCode outcomeOf
  rcases prepare up now s with ⟨exc | weekly, s₁⟩
  · rfl
  · rcases ha : attempt up cfg now weekly s₁ with ⟨exc | flow, s₂⟩
    · simp only [ha]
      exact ((attempt_leaves ha).raised exc rfl).1.symm
    · simp only [ha]
      exact ((attempt_leaves ha).reported flow rfl).1.symm

theorem prepare_history {r : Except Exc Nat} (h : prepare up now s = (r, t)) :
    t.history = s.history ∧ t.observed = s.observed := by
  have hk := keeps_prepare (p := fun s ↦ (s.history, s.observed)) up now
    (fun _ ↦ rfl) (fun _ _ ↦ rfl) s
  rw [h] at hk
  exact ⟨congrArg Prod.fst hk, congrArg Prod.snd hk⟩

theorem schedule_history {r : Except Exc PUnit} (h : schedule up cfg now weekly s = (r, t)) :
    t.history = s.history ∧ t.observed = s.observed := by
  have hk := keeps_schedule (p := fun s ↦ (s.history, s.observed)) up cfg now weekly
    (fun _ _ ↦ rfl) s
  rw [h] at hk
  exact ⟨congrArg Prod.fst hk, congrArg Prod.snd hk⟩

/-- A call that returns does what its outcome says, and reports it. -/
theorem fetchOne_outcome (h : fetchOne up cfg now s = (.ok ⟨⟩, t)) :
    ∃ o, outcomeOf up cfg now s = some o ∧ t.observed = s.observed ++ [o.result] ∧
      t.history = runMarks cfg.brokenThreshold cfg.deadDurationDays (o.marks now) s.history := by
  have hrun := fetchOne_run up cfg now s
  rw [h] at hrun
  generalize hr : (Except.ok ⟨⟩ : Except Exc PUnit) = r at hrun
  have hans : ∀ {weekly : Nat} {s₁ s₂ : FetchState} {flow : Flow},
      prepare up now s = (.ok weekly, s₁) → attempt up cfg now weekly s₁ = (.ok flow, s₂) →
      s₂.observed = s.observed ++ [(attemptOutcome up cfg now weekly s₁).result] ∧
      s₂.history = runMarks cfg.brokenThreshold cfg.deadDurationDays
        ((attemptOutcome up cfg now weekly s₁).marks now) s.history := by
    intro weekly s₁ s₂ flow hp ha
    have hl := attempt_leaves ha
    obtain ⟨hnone, hobs⟩ := hl.reported flow rfl
    obtain ⟨hlife₁, hobs₁⟩ := prepare_history hp
    refine ⟨by rw [hobs, hobs₁], ?_⟩
    rw [Outcome.marks, hnone, hl.history, hlife₁]
    exact congrArg (fun ms ↦ runMarks _ _ ms _) (List.append_nil _).symm
  cases hrun with
  | unprepared _ => cases hr
  | lost _ _ _ => cases hr
  | returned hp ha => exact ⟨_, outcomeOf_of_ok hp, hans hp ha⟩
  | completed hp ha hs =>
      obtain ⟨hlife, hobs⟩ := schedule_history hs
      rw [hlife, hobs]
      exact ⟨_, outcomeOf_of_ok hp, hans hp ha⟩
  | failed hp ha hf hs =>
      have hl := attempt_leaves ha
      obtain ⟨hcode, hres, hobs⟩ := hl.raised _ rfl
      obtain ⟨hlife₁, hobs₁⟩ := prepare_history hp
      obtain ⟨-, rfl⟩ := recordFailure_flow hf
      obtain ⟨hlife, hobs'⟩ := schedule_history hs
      refine ⟨_, outcomeOf_of_ok hp, ?_, ?_⟩
      · rw [hobs', hres, ← hobs₁, ← hobs]
        rfl
      · rw [hlife, Outcome.marks, hcode, runMarks_append, ← hlife₁, ← hl.history]
        rfl

/-- The `try` block is lawful under any circumstances: it records no failure. -/
theorem attempt_lawful {r : Except Exc Flow} (c : Circumstance)
    (h : attempt up cfg now weekly s = (r, t)) :
    Lawful cfg.deadDurationDays c s.history t.history := by
  rw [(attempt_leaves h).history, Outcome.before]
  cases (attemptOutcome up cfg now weekly s).answer with
  | none => exact .refl _
  | some a =>
      refine .mark (.inl rfl) fun _ _ hm ↦ ?_
      cases a <;> cases hm

/-- The `except` clause is lawful, whether it raises or not. -/
theorem recordFailure_lawful {exc : Exc} {r : Except Exc Flow}
    (h : recordFailure cfg now exc s = (r, t)) :
    Lawful cfg.deadDurationDays ⟨some (classifyError exc), t.feed.lifecycle.elapsed now⟩ s.history
      t.history := by
  have hc : ∀ u : Datetime, ∀ code, Mark.failure now (classifyError exc) = .failure u code →
      (⟨some (classifyError exc), s.feed.lifecycle.elapsed now⟩ : Circumstance) =
        ⟨some code, s.feed.lifecycle.elapsed u⟩ := by
    rintro u code hm
    cases hm
    rfl
  rcases recordFailure_cases cfg now exc s with h' | ⟨e, h'⟩
  · rw [h'] at h
    cases h
    exact .mark (.inl rfl) hc
  · rw [h'] at h
    cases h
    exact .mark (.inr rfl) hc

/-- Every transition of a call is legal, also when the call raises. -/
theorem fetchOne_lawful {r : Except Exc PUnit} (h : fetchOne up cfg now s = (r, t)) :
    Lawful cfg.deadDurationDays ⟨failureCode up cfg now s, t.feed.lifecycle.elapsed now⟩
      s.history t.history := by
  have hrun := fetchOne_run up cfg now s
  rw [h] at hrun
  have hcode : ∀ {weekly : Nat} {s₁ s₂ : FetchState} {exc : Exc},
      prepare up now s = (.ok weekly, s₁) → attempt up cfg now weekly s₁ = (.error exc, s₂) →
      failureCode up cfg now s = some (classifyError exc) := by
    intro weekly s₁ s₂ exc hp ha
    unfold failureCode
    rw [hp]
    simp only [ha]
  cases hrun with
  | unprepared hp =>
      rw [(prepare_history hp).1]
      exact .refl _
  | returned hp ha =>
      rw [← (prepare_history hp).1]
      exact attempt_lawful _ ha
  | completed hp ha hs =>
      rw [← (prepare_history hp).1, (schedule_history hs).1]
      exact attempt_lawful _ ha
  | failed hp ha hf hs =>
      rw [← (prepare_history hp).1, (schedule_history hs).1, hcode hp ha]
      have hl : t.feed.lifecycle = _ := congrArg Prod.fst (schedule_history hs).1
      rw [hl]
      exact (attempt_lawful _ ha).trans (recordFailure_lawful hf)
  | lost hp ha hf =>
      rw [← (prepare_history hp).1, hcode hp ha]
      exact (attempt_lawful _ ha).trans (recordFailure_lawful hf)

end

end FeedgateFetcher
