import FeedgateFetcher.EntryStore
import FeedgateFetcher.Fetcher.Retention

/-!
# The instants of edits

`upsert_entries` stamps the rows it inserts with the `now` of the call, and the rows
it overwrites with the clock of the database transaction.  Every statement of a
batch leaves a row alone, inserts it or revises it; the invariant of the loop says
which of the two clocks the row carries after each prefix of the batch.
-/

namespace FeedgateFetcher

open Python Logic

/-! ## One statement -/

namespace Entry

/-- The content fields. -/
def fields (e : Entry) : Text × Option Text × Option Text × Option Text × Option Datetime :=
  (e.url, e.title, e.content, e.author, e.publishedAt)

variable {e f : Entry} {p : ParsedEntry}

theorem Carries.of_fields (hf : f.Carries p) (h : e.fields = f.fields) : e.Carries p := by
  simp only [fields, Prod.mk.injEq] at h
  obtain ⟨h₁, h₂, h₃, h₄, h₅⟩ := h
  exact ⟨h₁.trans hf.url, h₂.trans hf.title, h₃.trans hf.content, h₄.trans hf.author,
    h₅.trans hf.publishedAt⟩

/-- Whatever the conflict branch leaves as it is carries the entry already. -/
theorem revise_of_carries (dbNow : Datetime) (h : e.Carries p) : e.revise p dbNow = e :=
  if_neg (carries_iff.mp h)

theorem revise_contentUpdatedAt (dbNow : Datetime) (h : ¬e.Carries p) :
    (e.revise p dbNow).contentUpdatedAt = dbNow := by
  have hd : e.contentDiffers p := not_not.mp (mt carries_iff.mpr h)
  rw [revise, if_pos hd]
  rfl

end Entry

/-- The content of the row under this key changes from one table to the next. -/
def Revised (k : Int × Text) (t t' : List Entry) : Prop :=
  ∃ e ∈ t, ∃ e' ∈ t', e.key = k ∧ e'.key = k ∧ e.fields ≠ e'.fields

/-- The row is new, or its content changes. -/
def Written (k : Int × Text) (t t' : List Entry) : Prop :=
  (∃ e' ∈ t', e'.key = k ∧ ∀ e ∈ t, e.key ≠ k) ∨ Revised k t t'

/-- What a statement did to a row that it leaves behind. -/
inductive Stamped (now dbNow : Datetime) (t t' : List Entry) (e' : Entry) : Prop
  | untouched : e' ∈ t → ¬Written e'.key t t' → Stamped now dbNow t t' e'
  | revised : Revised e'.key t t' → e'.contentUpdatedAt = dbNow → Stamped now dbNow t t' e'
  | inserted : (∀ e ∈ t, e.key ≠ e'.key) → Written e'.key t t' → e'.contentUpdatedAt = now →
    Stamped now dbNow t t' e'

section

variable {feedId : Int} {now dbNow : Datetime} {p : ParsedEntry} {ps : List ParsedEntry}
  {s : Session} {t : List Entry} {k : Int × Text}

theorem not_written_of_mem {t' : List Entry} {e : Entry} (ht : Table.Keyed Entry.key t)
    (ht' : Table.Keyed Entry.key t') (he : e ∈ t) (he' : e ∈ t') : ¬Written e.key t t' := by
  rintro (⟨-, -, -, hnew⟩ | ⟨f, hf, f', hf', hk, hk', hne⟩)
  · exact hnew e he rfl
  · rw [ht.eq_of_key hf he hk, ht'.eq_of_key hf' he' hk'] at hne
    exact hne rfl

theorem keyed_upsertEntry (ht : Table.Keyed Entry.key s.entries) :
    Table.Keyed Entry.key (upsertEntry feedId now dbNow p s).entries := by
  rw [upsertEntry_entries]
  exact ht.upsert (Entry.revise_key p dbNow)

/-- The three cases of the statement. -/
theorem upsertEntry_stamped (ht : Table.Keyed Entry.key s.entries) {e' : Entry}
    (he' : e' ∈ (upsertEntry feedId now dbNow p s).entries) :
    Stamped now dbNow s.entries (upsertEntry feedId now dbNow p s).entries e' := by
  have ht' : Table.Keyed Entry.key (upsertEntry feedId now dbNow p s).entries :=
    keyed_upsertEntry ht
  have hmem := he'
  rw [upsertEntry_entries] at hmem
  rcases Table.mem_upsert hmem with ⟨o, ho, rfl⟩ | ⟨rfl, hnew⟩
  · by_cases hk : o.key = (p.toRow s.nextEntryId feedId now).key
    · rw [if_pos hk] at he' ⊢
      by_cases hc : o.Carries p
      · rw [Entry.revise_of_carries dbNow hc] at he' ⊢
        exact .untouched ho (not_written_of_mem ht ht' ho he')
      · refine .revised ⟨o, ho, _, he', (Entry.revise_key p dbNow o).symm, rfl, fun h ↦ hc ?_⟩
          (Entry.revise_contentUpdatedAt dbNow hc)
        exact (Entry.revise_carries p dbNow o).of_fields h
    · rw [if_neg hk] at he' ⊢
      exact .untouched ho (not_written_of_mem ht ht' ho he')
  · exact .inserted hnew (.inl ⟨_, he', rfl, hnew⟩) rfl

/-! ## A batch -/

/-- Some statement of the batch relates the table before it to the table after it. -/
def Session.Sometime (R : List Entry → List Entry → Prop) (feedId : Int) (now dbNow : Datetime) :
    List ParsedEntry → Session → Prop
  | [], _ => False
  | p :: ps, s => R s.entries (upsertEntry feedId now dbNow p s).entries ∨
    Sometime R feedId now dbNow ps (upsertEntry feedId now dbNow p s)

theorem Session.sometime_snoc {R : List Entry → List Entry → Prop} (ps : List ParsedEntry)
    (s : Session) :
    Sometime R feedId now dbNow (ps ++ [p]) s ↔ Sometime R feedId now dbNow ps s ∨
      R (upsertAll feedId now dbNow ps s).entries
        (upsertEntry feedId now dbNow p (upsertAll feedId now dbNow ps s)).entries := by
  induction ps generalizing s with
  | nil => exact or_comm
  | cons q ps ih =>
      rw [List.cons_append, Sometime, Sometime, ih, or_assoc]
      rfl

theorem Session.upsertAll_snoc (ps : List ParsedEntry) (s : Session) :
    upsertAll feedId now dbNow (ps ++ [p]) s =
      upsertEntry feedId now dbNow p (upsertAll feedId now dbNow ps s) := by
  rw [upsertAll, List.foldl_append]
  rfl

/-- The instants that a batch leaves on its rows. -/
structure StampLaw (feedId : Int) (now dbNow : Datetime) (ps : List ParsedEntry) (s : Session)
    (t : List Entry) : Prop where
  keyed : Table.Keyed Entry.key t
  present : ∀ k, s.Sometime (Written k) feedId now dbNow ps → ∃ e ∈ t, e.key = k
  revised : ∀ e ∈ t, s.Sometime (Revised e.key) feedId now dbNow ps → e.contentUpdatedAt = dbNow
  inserted : ∀ e ∈ t, ¬s.Sometime (Revised e.key) feedId now dbNow ps →
    s.Sometime (Written e.key) feedId now dbNow ps → e.contentUpdatedAt = now
  untouched : ∀ e ∈ t, ¬s.Sometime (Written e.key) feedId now dbNow ps → e ∈ s.entries

theorem Written.of_revised {t' : List Entry} (h : Revised k t t') : Written k t t' := .inr h

theorem Session.Sometime.mono {R R' : List Entry → List Entry → Prop}
    (hR : ∀ t t', R t t' → R' t t') {ps : List ParsedEntry} {s : Session}
    (h : Sometime R feedId now dbNow ps s) :
    Sometime R' feedId now dbNow ps s := by
  induction ps generalizing s with
  | nil => exact h
  | cons p ps ih => exact h.imp (hR _ _) ih

/-- A written row is in the table after the statement. -/
theorem Written.mem {t' : List Entry} (h : Written k t t') : ∃ e ∈ t', e.key = k := by
  rcases h with ⟨e, he, hk, -⟩ | ⟨-, -, e, he, -, hk, -⟩
  · exact ⟨e, he, hk⟩
  · exact ⟨e, he, hk⟩

theorem StampLaw.nil (feedId : Int) (now dbNow : Datetime)
    (h : Table.Keyed Entry.key s.entries) : StampLaw feedId now dbNow [] s s.entries where
  keyed := h
  present _ h := h.elim
  revised _ _ h := h.elim
  inserted _ _ _ h := h.elim
  untouched _ he _ := he

/-- One more entry of the batch. -/
theorem StampLaw.snoc
    (h : StampLaw feedId now dbNow ps s (Session.upsertAll feedId now dbNow ps s).entries)
    (p : ParsedEntry) :
    StampLaw feedId now dbNow (ps ++ [p]) s
      (Session.upsertAll feedId now dbNow (ps ++ [p]) s).entries := by
  rw [Session.upsertAll_snoc]
  constructor
  case keyed => exact keyed_upsertEntry h.keyed
  case present =>
    intro k hk
    rcases (Session.sometime_snoc ps s).mp hk with hk | hk
    · obtain ⟨e, he, rfl⟩ := h.present k hk
      rw [upsertEntry_entries]
      exact ⟨_, Table.mem_upsert_of_mem he, Table.key_revised (Entry.revise_key p dbNow) e⟩
    · exact hk.mem
  case revised =>
    intro e he hr
    rcases upsertEntry_stamped h.keyed he with ⟨hmem, hnot⟩ | ⟨-, hnow⟩ | ⟨hnew, -, -⟩
    · refine h.revised e hmem (((Session.sometime_snoc ps s).mp hr).resolve_right fun hr ↦ ?_)
      exact hnot (.of_revised hr)
    · exact hnow
    · -- the row was not there before the last statement
      rcases (Session.sometime_snoc ps s).mp hr with hr | ⟨o, ho, -, -, hk, -⟩
      · obtain ⟨o, ho, hk⟩ := h.present e.key (hr.mono fun _ _ ↦ .of_revised)
        exact absurd hk (hnew o ho)
      · exact absurd hk (hnew o ho)
  case inserted =>
    intro e he hr hw
    rw [Session.sometime_snoc, not_or] at hr
    rcases upsertEntry_stamped h.keyed he with ⟨hmem, hnot⟩ | ⟨hlast, -⟩ | ⟨-, -, hnow⟩
    · exact h.inserted e hmem hr.1 (((Session.sometime_snoc ps s).mp hw).resolve_right hnot)
    · exact absurd hlast hr.2
    · exact hnow
  case untouched =>
    intro e he hw
    rw [Session.sometime_snoc, not_or] at hw
    rcases upsertEntry_stamped h.keyed he with ⟨hmem, -⟩ | ⟨hlast, -⟩ | ⟨-, hlast, -⟩
    · exact h.untouched e hmem hw.1
    · exact absurd (.of_revised hlast) hw.2
    · exact absurd hlast hw.2

theorem upsertAll_stamps (feedId : Int) (now dbNow : Datetime) (ps : List ParsedEntry)
    (h : Table.Keyed Entry.key s.entries) :
    StampLaw feedId now dbNow ps s (Session.upsertAll feedId now dbNow ps s).entries := by
  induction ps using List.reverseRecOn with
  | nil => exact .nil feedId now dbNow h
  | append_singleton ps p ih => exact ih.snoc p

/-! ## Batches that revise nothing -/

/-- The batch has one content for a guid, that of the stored row if there is one. -/
structure Settled (feedId : Int) (ps : List ParsedEntry) (t : List Entry) : Prop where
  single : ∀ p ∈ ps, ∀ q ∈ ps, p.guid = q.guid → p = q
  stored : ∀ p ∈ ps, ∀ e ∈ t, e.key = (feedId, p.guid) → e.Carries p

/-- After a settled batch a row carries whatever was proposed for it. -/
theorem Settled.carries (h : Settled feedId ps t) {t' : List Entry}
    (hlaw : BatchLaw feedId now dbNow ps t t') {e : Entry} (he : e ∈ t') {q : ParsedEntry}
    (hq : q ∈ ps) (hk : e.key = (feedId, q.guid)) : e.Carries q := by
  cases hlast : (e.proposals feedId ps).getLast? with
  | none =>
      have hmem : q ∈ e.proposals feedId ps :=
        List.mem_filter.mpr ⟨hq, decide_eq_true (Entry.matches_iff_key.mpr hk)⟩
      rw [List.getLast?_eq_none_iff.mp hlast] at hmem
      cases hmem
  | some r =>
      obtain ⟨hr, hm⟩ := List.mem_filter.mp (List.mem_of_getLast? hlast)
      have hkr := Entry.matches_iff_key.mp (of_decide_eq_true hm)
      rw [h.single q hq r hr (congrArg Prod.snd (hk.symm.trans hkr))]
      exact (hlaw.latest e he r hlast).1

/-- A settled batch stays settled with one more entry exactly when the row of the entry, if it has
one by then, carries it. -/
theorem Settled.snoc_iff (h : Settled feedId ps t) {t' : List Entry}
    (hlaw : BatchLaw feedId now dbNow ps t t') :
    Settled feedId (ps ++ [p]) t ↔ ∀ e ∈ t', e.key = (feedId, p.guid) → e.Carries p := by
  have huntouched : (∀ q ∈ ps, q.guid ≠ p.guid) → ∀ e : Entry, e.key = (feedId, p.guid) →
      (e ∈ t' ↔ e ∈ t) := by
    intro hnone e hk
    refine hlaw.untouched e (List.filter_eq_nil_iff.mpr fun q hq hm ↦ ?_)
    have hkq := Entry.matches_iff_key.mp (of_decide_eq_true hm)
    exact hnone q hq (congrArg Prod.snd (hkq.symm.trans hk))
  constructor
  · intro hsnoc e he hk
    have hp : p ∈ ps ++ [p] := List.mem_append_right _ List.mem_cons_self
    by_cases hsome : ∃ q ∈ ps, q.guid = p.guid
    · obtain ⟨q, hq, hguid⟩ := hsome
      rw [← hsnoc.single q (List.mem_append_left _ hq) p hp hguid]
      exact h.carries hlaw he hq (hguid ▸ hk)
    · have hnone : ∀ q ∈ ps, q.guid ≠ p.guid := fun q hq hg ↦ hsome ⟨q, hq, hg⟩
      exact hsnoc.stored p hp e ((huntouched hnone e hk).mp he) hk
  · intro hcarries
    have hsame : ∀ q ∈ ps, q.guid = p.guid → q = p := by
      intro q hq hguid
      obtain ⟨e, he, hk⟩ := hlaw.stored q hq
      exact (h.carries hlaw he hq hk).unique (hcarries e he (hguid ▸ hk)) hguid
    constructor
    · intro q hq r hr hguid
      rcases List.mem_append.mp hq with hq' | hq' <;> rcases List.mem_append.mp hr with hr' | hr'
      · exact h.single q hq' r hr' hguid
      · obtain rfl := List.mem_singleton.mp hr'
        exact hsame q hq' hguid
      · obtain rfl := List.mem_singleton.mp hq'
        exact (hsame r hr' hguid.symm).symm
      · exact (List.mem_singleton.mp hq').trans (List.mem_singleton.mp hr').symm
    · intro q hq e he hk
      rcases List.mem_append.mp hq with hq | hq
      · exact h.stored q hq e he hk
      · obtain rfl := List.mem_singleton.mp hq
        by_cases hsome : ∃ r ∈ ps, r.guid = q.guid
        · obtain ⟨r, hr, hguid⟩ := hsome
          rw [← hsame r hr hguid]
          exact h.stored r hr e he (hguid ▸ hk)
        · have hnone : ∀ r ∈ ps, r.guid ≠ q.guid := fun r hr hg ↦ hsome ⟨r, hr, hg⟩
          exact hcarries e ((huntouched hnone e hk).mpr he) hk

/-- The statement revises no row exactly when the row of the entry carries it. -/
theorem not_revised_iff (ht : Table.Keyed Entry.key s.entries) :
    (∀ k, ¬Revised k s.entries (upsertEntry feedId now dbNow p s).entries) ↔
      ∀ e ∈ s.entries, e.key = (feedId, p.guid) → e.Carries p := by
  constructor
  · intro h e he hk
    have hmem : (if e.key = (p.toRow s.nextEntryId feedId now).key then e.revise p dbNow else e) ∈
        (upsertEntry feedId now dbNow p s).entries := by
      rw [upsertEntry_entries]
      exact Table.mem_upsert_of_mem he
    have hk' : e.key = (p.toRow s.nextEntryId feedId now).key := hk
    rw [if_pos hk'] at hmem
    by_contra hc
    refine h e.key ⟨e, he, _, hmem, rfl, Entry.revise_key p dbNow e, fun hf ↦ hc ?_⟩
    exact (Entry.revise_carries p dbNow e).of_fields hf
  · rintro h k ⟨e, he, e', he', rfl, hk, hne⟩
    rw [upsertEntry_entries] at he'
    rcases Table.mem_upsert he' with ⟨o, ho, rfl⟩ | ⟨rfl, hnew⟩
    · obtain rfl : o = e :=
        ht.eq_of_key ho he ((Table.key_revised (Entry.revise_key p dbNow) o).symm.trans hk)
      by_cases hko : o.key = (p.toRow s.nextEntryId feedId now).key
      · rw [if_pos hko, Entry.revise_of_carries dbNow (h o ho hko)] at hne
        exact hne rfl
      · rw [if_neg hko] at hne
        exact hne rfl
    · exact hnew e he hk.symm

/-- A batch revises no row exactly when it is settled. -/
theorem settled_iff (feedId : Int) (now dbNow : Datetime) (ps : List ParsedEntry)
    (ht : Table.Keyed Entry.key s.entries) :
    (∀ k, ¬s.Sometime (Revised k) feedId now dbNow ps) ↔ Settled feedId ps s.entries := by
  induction ps using List.reverseRecOn with
  | nil => exact ⟨fun _ ↦ ⟨nofun, nofun⟩, fun _ _ h ↦ h⟩
  | append_singleton ps p ih =>
      have hlaw := upsertAll_law feedId now dbNow ps s
      simp only [Session.sometime_snoc, not_or, forall_and]
      rw [ih, not_revised_iff (hlaw.keyed ht)]
      constructor
      · rintro ⟨hs, hlast⟩
        exact (hs.snoc_iff hlaw).mpr hlast
      · intro hs
        have hs' : Settled feedId ps s.entries :=
          ⟨fun q hq r hr ↦ hs.single q (List.mem_append_left _ hq) r (List.mem_append_left _ hr),
            fun q hq ↦ hs.stored q (List.mem_append_left _ hq)⟩
        exact ⟨hs', (hs'.snoc_iff hlaw).mp hs⟩

end

/-! ## One call -/

namespace UpsertCall

/-- Some statement of the call inserts the row under this key or changes its content. -/
def Writes (c : UpsertCall) (t : List Entry) (k : Int × Text) : Prop :=
  (Session.start t c.nextEntryId).Sometime (Written k) c.feedId c.now c.dbNow c.batch

/-- Every row that the call writes ends it with the `now` of the call. -/
def StampsNow (c : UpsertCall) (t t' : List Entry) : Prop :=
  ∀ e ∈ t', c.Writes t e.key → e.contentUpdatedAt = c.now

variable {c : UpsertCall} {t t' : List Entry}

theorem Step.stamps (h : Step t c t') (ht : Table.Keyed Entry.key t) :
    StampLaw c.feedId c.now c.dbNow c.batch (.start t c.nextEntryId) t' := by
  obtain ⟨d, hd, rfl⟩ := h
  rw [entries_of_upsertEntries rfl hd]
  exact upsertAll_stamps c.feedId c.now c.dbNow c.batch ht

/-- A call stamps what it writes with its own `now` exactly when the two clocks agree or it
revises no row. -/
theorem stampsNow_iff (h : Step t c t') (ht : Table.Keyed Entry.key t) :
    c.StampsNow t t' ↔ c.dbNow = c.now ∨ Settled c.feedId c.batch t := by
  have hlaw := h.stamps ht
  have hsettled := settled_iff (s := .start t c.nextEntryId) c.feedId c.now c.dbNow c.batch ht
  constructor
  · intro hstamps
    by_contra hnot
    rw [not_or] at hnot
    refine hnot.2 (hsettled.mp fun k hk ↦ hnot.1 ?_)
    have hwrites : c.Writes t k := hk.mono fun _ _ ↦ .of_revised
    obtain ⟨e, he, rfl⟩ := hlaw.present k hwrites
    rw [← hlaw.revised e he hk, hstamps e he hwrites]
  · rintro (hclock | hs) e he hw
    · by_cases hr : (Session.start t c.nextEntryId).Sometime (Revised e.key) c.feedId c.now
          c.dbNow c.batch
      · rw [hlaw.revised e he hr, hclock]
      · exact hlaw.inserted e he hr hw
    · exact hlaw.inserted e he (hsettled.mpr hs e.key) hw

end UpsertCall

/-! ## Runs of calls -/

/-- The table, and the `now` of the latest call. -/
structure Chronicle where
  rows : List Entry
  clock : Datetime

namespace Chronicle

/-- What happens to the table: a call of a caller whose `now` does not go back, or the removal of
some rows by a sweep or with their feed. -/
inductive Step : Chronicle → Option UpsertCall → Chronicle → Prop
  | upsert {s : Chronicle} {c : UpsertCall} {rows : List Entry} : UpsertCall.Step s.rows c rows →
    s.clock ≤ c.now → Step s (some c) ⟨rows, c.now⟩
  | remove {s : Chronicle} {rows : List Entry} : rows.Sublist s.rows → Step s none ⟨rows, s.clock⟩

/-- A step in which the database clock is not behind, or the call revises no row. -/
def SteadyStep (s : Chronicle) (c : Option UpsertCall) (s' : Chronicle) : Prop :=
  s.Step c s' ∧ ∀ c' ∈ c, c'.now ≤ c'.dbNow ∨ Settled c'.feedId c'.batch s.rows

/-- No row was edited before it was fetched, and none is from the future. -/
structure Sound (s : Chronicle) : Prop where
  keyed : Table.Keyed Entry.key s.rows
  edited : ∀ e ∈ s.rows, e.fetchedAt ≤ e.contentUpdatedAt
  past : ∀ e ∈ s.rows, e.fetchedAt ≤ s.clock

variable {s s' : Chronicle} {c : Option UpsertCall}

theorem Sound.empty (clock : Datetime) : Sound ⟨[], clock⟩ :=
  ⟨Table.Keyed.nil _, List.forall_mem_nil _, List.forall_mem_nil _⟩

theorem Sound.step (h : s.Sound) (hstep : s.SteadyStep c s') : s'.Sound := by
  obtain ⟨hstep, hsteady⟩ := hstep
  cases hstep with
  | @remove rows hsub =>
      exact ⟨h.keyed.sublist hsub, fun e he ↦ h.edited e (hsub.subset he),
        fun e he ↦ h.past e (hsub.subset he)⟩
  | @upsert c rows hcall hclock =>
      have hlaw := hcall.stamps h.keyed
      have hpast : ∀ e ∈ rows, e.fetchedAt ≤ c.now := by
        intro e he
        rcases hcall.law.created e he with ⟨o, ho, hc⟩ | ⟨-, hfetched⟩
        · exact hc.fetchedAt ▸ (h.past o ho).trans hclock
        · exact hfetched.le
      refine ⟨hlaw.keyed, fun e he ↦ ?_, hpast⟩
      by_cases hr : (Session.start s.rows c.nextEntryId).Sometime (Revised e.key) c.feedId c.now
          c.dbNow c.batch
      · -- the row carries the clock of the database
        rw [hlaw.revised e he hr]
        refine (hpast e he).trans ((hsteady c rfl).resolve_right fun hs ↦ ?_)
        exact (settled_iff (s := .start s.rows c.nextEntryId) c.feedId c.now c.dbNow c.batch
          h.keyed).mpr hs e.key hr
      · by_cases hw : c.Writes s.rows e.key
        · rw [hlaw.inserted e he hr hw]
          exact hpast e he
        · exact h.edited e (hlaw.untouched e he hw)

/-- A call ends with one edit instant, its `now`, exactly when the database clock agrees or no row
is revised; and as long as the database clock is not behind in the calls that revise rows, no row
ever seems edited before it was fetched. -/
theorem edits_stamped_iff (c : UpsertCall) (t t' : List Entry) (ht : Table.Keyed Entry.key t)
    (hstep : UpsertCall.Step t c t') :
    (c.StampsNow t t' ↔ c.dbNow = c.now ∨ Settled c.feedId c.batch t) ∧
      ∀ (s s' : Chronicle) (cs : List (Option UpsertCall)), s.Sound → Run SteadyStep s cs s' →
        ∀ e ∈ s'.rows, e.fetchedAt ≤ e.contentUpdatedAt := by
  constructor
  · exact UpsertCall.stampsNow_iff hstep ht
  · intro s s' cs hs hrun
    exact (hrun.invariant (P := Sound) (fun _ _ _ h hstep ↦ h.step hstep) hs).edited

/-- A call in the year 2101 that names a guid twice, on a database that is a century behind. -/
def behind : UpsertCall :=
  ⟨1, [UpsertCall.titled 'a', UpsertCall.titled 'b'], .year2101, .year2000, 1, fun _ ↦ false⟩

/-- The row it inserts is revised in the same call, and seems edited before it was fetched. -/
theorem behind_misstamped :
    UpsertCall.Step [] behind (behind.result []) ∧ ¬behind.StampsNow [] (behind.result []) ∧
    (behind.result []).map (fun e ↦ (e.fetchedAt, e.contentUpdatedAt)) =
      [(.year2101, .year2000)] := by
  have hstep : UpsertCall.Step [] behind (behind.result []) :=
    UpsertCall.step_result (fun _ ↦ rfl) []
  refine ⟨hstep, mt (UpsertCall.stampsNow_iff hstep (.nil _)).mp ?_, by decide +kernel⟩
  rintro (hclock | hs)
  · exact absurd hclock (by decide)
  · exact absurd (hs.single (UpsertCall.titled 'a') (by decide) (UpsertCall.titled 'b') (by decide)
      rfl) (by decide)

/-- A row from the year 2000 with the title `a`. -/
def titledRow : Entry := ⟨1, 1, ['g'], ['u'], some ['a'], none, none, none, .year2000, .year2000⟩

/-- The row is met with its content, and another guid is new; the database is a century ahead. -/
def confirming : UpsertCall :=
  ⟨1, [UpsertCall.titled 'a', { UpsertCall.titled 'a' with guid := ['h'] }], .year2000, .year2101,
    2, fun _ ↦ false⟩

/-- The row gets another title. -/
def editing : UpsertCall := ⟨1, [UpsertCall.titled 'b'], .year2000, .year2101, 3, fun _ ↦ false⟩

/-- Though the clocks differ, the first call stamps what it writes with its own instant, and the
edit of the second one does not seem to precede the fetch. -/
theorem once_stamped :
    confirming.StampsNow [titledRow] (confirming.result [titledRow]) ∧
    ∀ e ∈ editing.result (confirming.result [titledRow]), e.fetchedAt ≤ e.contentUpdatedAt := by
  have hstep : UpsertCall.Step [titledRow] confirming (confirming.result [titledRow]) :=
    UpsertCall.step_result (fun _ ↦ rfl) _
  have hstep' : UpsertCall.Step (confirming.result [titledRow]) editing
      (editing.result (confirming.result [titledRow])) :=
    UpsertCall.step_result (fun _ ↦ rfl) _
  have hkeyed : Table.Keyed Entry.key [titledRow] := List.nodup_singleton _
  have hsettled : Settled 1 confirming.batch [titledRow] := by
    refine ⟨by decide, fun p hp e he hkey ↦ ?_⟩
    rw [List.mem_singleton.mp he] at hkey ⊢
    rcases List.mem_pair.mp hp with rfl | rfl
    · exact ⟨rfl, rfl, rfl, rfl, rfl⟩
    · exact absurd hkey (by decide)
  have hsound : Sound ⟨[titledRow], .year2000⟩ :=
    ⟨hkeyed, List.forall_mem_singleton.mpr le_rfl, List.forall_mem_singleton.mpr le_rfl⟩
  have hfirst : SteadyStep ⟨[titledRow], .year2000⟩ (some confirming)
      ⟨confirming.result [titledRow], .year2000⟩ := by
    refine ⟨.upsert hstep le_rfl, ?_⟩
    rintro _ ⟨⟩
    exact .inr hsettled
  have hsecond : SteadyStep ⟨confirming.result [titledRow], .year2000⟩ (some editing)
      ⟨editing.result (confirming.result [titledRow]), .year2000⟩ := by
    refine ⟨.upsert hstep' le_rfl, ?_⟩
    rintro _ ⟨⟩
    exact .inl (by decide)
  obtain ⟨hstamps, hruns⟩ := edits_stamped_iff confirming [titledRow] _ hkeyed hstep
  exact ⟨hstamps.mpr (.inr hsettled), hruns _ _ _ hsound ((Run.single hfirst).snoc hsecond)⟩

end Chronicle

end FeedgateFetcher
