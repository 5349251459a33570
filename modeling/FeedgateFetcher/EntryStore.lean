import FeedgateFetcher.Fetcher.EntryTable
import FeedgateFetcher.Logic.Table
import FeedgateFetcher.Logic.Transition

/-!
# The entry store

What a call of `upsert_entries` makes of the table, for every batch, and what any
number of calls make of it.  A batch is read from its first entry to its last:
the invariant of the loop says what the rows are after each of its prefixes.
-/

namespace FeedgateFetcher

open Python Logic

/-! ## One statement -/

namespace Entry

/-- The unique index of the table. -/
def key (e : Entry) : Int × Text := (e.feedId, e.guid)

theorem matches_iff_key {feedId : Int} {e : Entry} {p : ParsedEntry} :
    e.Matches feedId p ↔ e.key = (feedId, p.guid) := by
  rw [key, Prod.mk.injEq]
  rfl

/-- The row has the content of the parsed entry. -/
structure Carries (e : Entry) (p : ParsedEntry) : Prop where
  url : e.url = p.url
  title : e.title = p.title
  content : e.content = p.content
  author : e.author = p.author
  publishedAt : e.publishedAt = p.publishedAt

theorem carries_iff {e : Entry} {p : ParsedEntry} : e.Carries p ↔ ¬e.contentDiffers p := by
  rw [not_contentDiffers_iff]
  constructor
  · rintro ⟨h₁, h₂, h₃, h₄, h₅⟩
    exact ⟨h₁, h₂, h₃, h₄, h₅⟩
  · rintro ⟨h₁, h₂, h₃, h₄, h₅⟩
    exact ⟨h₁, h₂, h₃, h₄, h₅⟩

/-- Parsed entries with one guid and one content are one. -/
theorem Carries.unique {e : Entry} {p q : ParsedEntry} (hp : e.Carries p) (hq : e.Carries q)
    (h : p.guid = q.guid) : p = q := by
  obtain ⟨p₁, p₂, p₃, p₄, p₅, p₆⟩ := p
  obtain ⟨q₁, q₂, q₃, q₄, q₅, q₆⟩ := q
  obtain ⟨h₁, h₂, h₃, h₄, h₅⟩ := hp
  obtain ⟨k₁, k₂, k₃, k₄, k₅⟩ := hq
  dsimp only at *
  subst h h₁ h₂ h₃ h₄ h₅
  rw [← k₁, ← k₂, ← k₃, ← k₄, ← k₅]

/-- `e'` is a later state of the row `e`. -/
structure Continues (e e' : Entry) : Prop where
  id : e'.id = e.id
  key : e'.key = e.key
  fetchedAt : e'.fetchedAt = e.fetchedAt

theorem Continues.refl (e : Entry) : e.Continues e := ⟨rfl, rfl, rfl⟩

theorem Continues.trans {e f g : Entry} (h : e.Continues f) (h' : f.Continues g) :
    e.Continues g :=
  ⟨h'.id.trans h.id, h'.key.trans h.key, h'.fetchedAt.trans h.fetchedAt⟩

/-- The conflict branch, on the row that conflicts. -/
def revise (p : ParsedEntry) (dbNow : Datetime) (e : Entry) : Entry :=
  if e.contentDiffers p then e.overwrite p dbNow else e

@[simp] theorem revise_key (p : ParsedEntry) (dbNow : Datetime) (e : Entry) :
    (e.revise p dbNow).key = e.key := by
  unfold revise
  split <;> rfl

theorem revise_carries (p : ParsedEntry) (dbNow : Datetime) (e : Entry) :
    (e.revise p dbNow).Carries p := by
  unfold revise
  split
  · exact ⟨rfl, rfl, rfl, rfl, rfl⟩
  · rename_i h
    exact carries_iff.mpr h

theorem continues_revised (k : Int × Text) (p : ParsedEntry) (dbNow : Datetime) (e : Entry) :
    e.Continues (if e.key = k then e.revise p dbNow else e) := by
  unfold revise
  split
  · split
    · exact ⟨rfl, rfl, rfl⟩
    · exact .refl e
  · exact .refl e

end Entry

section

variable {feedId : Int} {now dbNow : Datetime} {p : ParsedEntry} {ps : List ParsedEntry}
  {s : Session}

/-- The statement inserts or revises by the unique index. -/
theorem upsertEntry_entries (feedId : Int) (now dbNow : Datetime) (p : ParsedEntry) (s : Session) :
    (upsertEntry feedId now dbNow p s).entries =
      Table.upsert Entry.key (p.toRow s.nextEntryId feedId now) (Entry.revise p dbNow)
        s.entries := by
  by_cases h : s.Has feedId p
  · rw [Session.upsertEntry_of_has h, Table.upsert_of_mem]
    · refine List.map_congr_left fun e _ ↦ ?_
      unfold Entry.receive Entry.revise
      by_cases hm : e.Matches feedId p
      · have hk : e.key = (p.toRow s.nextEntryId feedId now).key := Entry.matches_iff_key.mp hm
        rw [if_pos hk]
        simp only [hm, true_and]
      · have hk : e.key ≠ (p.toRow s.nextEntryId feedId now).key :=
          fun hk ↦ hm (Entry.matches_iff_key.mpr hk)
        rw [if_neg hk, if_neg fun hc ↦ hm hc.1]
    · obtain ⟨e, he, hm⟩ := h
      exact ⟨e, he, Entry.matches_iff_key.mp hm⟩
  · rw [Session.upsertEntry_of_not_has h, Table.upsert_of_not_mem]
    intro e he hk
    exact h ⟨e, he, Entry.matches_iff_key.mpr hk⟩

/-! ## One batch -/

/-- The invariant of the loop: what the prefix `ps` of a batch has made of the table `t`. -/
structure BatchLaw (feedId : Int) (now dbNow : Datetime) (ps : List ParsedEntry)
    (t t' : List Entry) : Prop where
  keyed : Table.Keyed Entry.key t → Table.Keyed Entry.key t'
  /-- Every entry of the batch has a row. -/
  stored : ∀ p ∈ ps, ∃ e ∈ t', e.key = (feedId, p.guid)
  /-- A row carries the last entry proposed for it, and the instant of the edit when another one
  was proposed, too. -/
  latest : ∀ e ∈ t', ∀ p ∈ (e.proposals feedId ps).getLast?, e.Carries p ∧
    ((∀ q ∈ e.proposals feedId ps, e.Carries q) ∨ e.contentUpdatedAt = dbNow)
  untouched : ∀ e : Entry, e.proposals feedId ps = [] → (e ∈ t' ↔ e ∈ t)
  kept : ∀ e ∈ t, ∃ e' ∈ t', e.Continues e'
  created : ∀ e' ∈ t', (∃ e ∈ t, e.Continues e') ∨
    (∀ e ∈ t, e.key ≠ e'.key) ∧ e'.fetchedAt = now

theorem Entry.proposals_snoc (feedId : Int) (ps : List ParsedEntry) (p : ParsedEntry) (e : Entry) :
    e.proposals feedId (ps ++ [p]) =
      if e.key = (feedId, p.guid) then e.proposals feedId ps ++ [p] else e.proposals feedId ps := by
  unfold Entry.proposals
  rw [List.filter_append]
  by_cases h : e.Matches feedId p
  · rw [if_pos (Entry.matches_iff_key.mp h)]
    simp [h]
  · rw [if_neg fun hk ↦ h (Entry.matches_iff_key.mpr hk)]
    simp [h]

/-- The proposals for a row depend on its key. -/
theorem Entry.proposals_congr {e f : Entry} (h : e.key = f.key) (feedId : Int)
    (ps : List ParsedEntry) : e.proposals feedId ps = f.proposals feedId ps := by
  unfold Entry.proposals
  refine List.filter_congr fun p _ ↦ ?_
  simp only [Entry.matches_iff_key, h]

/-- The conflict branch leaves a row that carries every proposal, or notes the instant. -/
theorem Entry.carries_or_edited_revise {o : Entry} (p : ParsedEntry)
    (h : ∀ r ∈ (o.proposals feedId ps).getLast?,
      (∀ q ∈ o.proposals feedId ps, o.Carries q) ∨ o.contentUpdatedAt = dbNow) :
    (∀ q ∈ o.proposals feedId ps ++ [p], (o.revise p dbNow).Carries q) ∨
      (o.revise p dbNow).contentUpdatedAt = dbNow := by
  by_cases hd : o.contentDiffers p
  · right
    rw [Entry.revise, if_pos hd]
    rfl
  · rw [Entry.revise, if_neg hd]
    have hcarries : ∀ q ∈ [p], o.Carries q := by
      intro q hq
      rw [List.mem_singleton.mp hq]
      exact Entry.carries_iff.mpr hd
    cases hlast : (o.proposals feedId ps).getLast? with
    | none =>
        left
        rw [List.getLast?_eq_none_iff.mp hlast]
        exact hcarries
    | some r =>
        refine (h r hlast).imp_left fun hall q hq ↦ ?_
        exact (List.mem_append.mp hq).elim (hall q) (hcarries q)

/-- Nothing was proposed under the key of a row that is new. -/
theorem Entry.proposals_eq_nil_of_new {t : List Entry} {row : Entry}
    (hstored : ∀ p ∈ ps, ∃ e ∈ t, e.key = (feedId, p.guid)) (hnew : ∀ e ∈ t, e.key ≠ row.key) :
    row.proposals feedId ps = [] := by
  refine List.filter_eq_nil_iff.mpr fun p hp hm ↦ ?_
  obtain ⟨e, he, hk⟩ := hstored p hp
  exact hnew e he (hk.trans (Entry.matches_iff_key.mp (of_decide_eq_true hm)).symm)

theorem BatchLaw.nil (feedId : Int) (now dbNow : Datetime) (t : List Entry) :
    BatchLaw feedId now dbNow [] t t where
  keyed h := h
  stored _ h := nomatch h
  latest _ _ _ h := nomatch h
  untouched _ _ := Iff.rfl
  kept e he := ⟨e, he, .refl e⟩
  created e he := .inl ⟨e, he, .refl e⟩

/-- One more entry of the batch. -/
theorem BatchLaw.snoc {t t' : List Entry} (h : BatchLaw feedId now dbNow ps t t') (id : Int)
    (p : ParsedEntry) :
    BatchLaw feedId now dbNow (ps ++ [p]) t
      (Table.upsert Entry.key (p.toRow id feedId now) (Entry.revise p dbNow) t') := by
  have hkey : ∀ e : Entry, (e.revise p dbNow).key = e.key := Entry.revise_key p dbNow
  constructor
  case keyed => exact fun ht ↦ (h.keyed ht).upsert hkey
  case stored =>
    intro q hq
    rcases List.mem_append.mp hq with hq | hq
    · obtain ⟨e, he, hk⟩ := h.stored q hq
      exact ⟨_, Table.mem_upsert_of_mem he, (Table.key_revised hkey e).trans hk⟩
    · rw [List.mem_singleton.mp hq]
      exact Table.exists_mem_upsert hkey
  case latest =>
    intro e he q hq
    rw [Entry.proposals_snoc] at hq ⊢
    rcases Table.mem_upsert he with ⟨o, ho, rfl⟩ | ⟨rfl, hnew⟩
    · rw [Table.key_revised hkey] at hq ⊢
      by_cases hk : o.key = (feedId, p.guid)
      · -- the row receives `p`
        rw [if_pos hk] at hq ⊢
        obtain rfl : q = p := by simpa using hq.symm
        have hk' : o.key = (q.toRow id feedId now).key := hk
        rw [if_pos hk', Entry.proposals_congr (hkey o)]
        exact ⟨Entry.revise_carries q dbNow o,
          Entry.carries_or_edited_revise q fun r hr ↦ (h.latest o ho r hr).2⟩
      · have hk' : o.key ≠ (p.toRow id feedId now).key := hk
        rw [if_neg hk] at hq ⊢
        rw [if_neg hk'] at hq ⊢
        exact h.latest o ho q hq
    · -- a new row: nothing was proposed under its key before
      have hnone : (p.toRow id feedId now).proposals feedId ps = [] :=
        Entry.proposals_eq_nil_of_new h.stored hnew
      rw [hnone] at hq ⊢
      have hk : (p.toRow id feedId now).key = (feedId, p.guid) := rfl
      rw [if_pos hk] at hq ⊢
      obtain rfl : q = p := by simpa using hq.symm
      refine ⟨⟨rfl, rfl, rfl, rfl, rfl⟩, .inl fun q' hq' ↦ ?_⟩
      rw [List.mem_singleton.mp hq']
      exact ⟨rfl, rfl, rfl, rfl, rfl⟩
  case untouched =>
    intro e he
    rw [Entry.proposals_snoc] at he
    have hk : e.key ≠ (feedId, p.guid) := by
      intro hk
      rw [if_pos hk] at he
      exact List.append_ne_nil_of_right_ne_nil _ (List.cons_ne_nil _ _) he
    rw [if_neg hk] at he
    exact (Table.mem_upsert_iff_of_ne hkey hk).trans (h.untouched e he)
  case kept =>
    intro e he
    obtain ⟨f, hf, hc⟩ := h.kept e he
    exact ⟨_, Table.mem_upsert_of_mem hf, hc.trans (Entry.continues_revised _ p dbNow f)⟩
  case created =>
    intro e he
    rcases Table.mem_upsert he with ⟨o, ho, rfl⟩ | ⟨rfl, hnew⟩
    · have hc := Entry.continues_revised (p.toRow id feedId now).key p dbNow o
      rcases h.created o ho with ⟨f, hf, hfo⟩ | ⟨hne, hfetched⟩
      · exact .inl ⟨f, hf, hfo.trans hc⟩
      · exact .inr ⟨fun f hf hk ↦ hne f hf (hk.trans hc.key), hc.fetchedAt.trans hfetched⟩
    · refine .inr ⟨fun f hf hk ↦ ?_, rfl⟩
      obtain ⟨g, hg, hc⟩ := h.kept f hf
      exact hnew g hg (hc.key.trans hk)

/-- What a whole batch makes of the table. -/
theorem upsertAll_law (feedId : Int) (now dbNow : Datetime) (ps : List ParsedEntry)
    (s : Session) :
    BatchLaw feedId now dbNow ps s.entries (Session.upsertAll feedId now dbNow ps s).entries := by
  induction ps using List.reverseRecOn with
  | nil => exact .nil feedId now dbNow s.entries
  | append_singleton ps p ih =>
      have hsnoc : Session.upsertAll feedId now dbNow (ps ++ [p]) s =
          upsertEntry feedId now dbNow p (Session.upsertAll feedId now dbNow ps s) := by
        rw [Session.upsertAll, List.foldl_append]
        rfl
      rw [hsnoc, upsertEntry_entries]
      exact ih.snoc _ p

/-- A batch whose statements the server all accepted. -/
theorem entries_of_upsertEntries {fails : Nat → Bool} {d : Session} (hs : s.abortedBy = none)
    (h : upsertEntries fails feedId now dbNow ps s = (.ok ⟨⟩, d)) :
    d.entries = (Session.upsertAll feedId now dbNow ps s).entries := by
  by_cases hacc : Accepts fails s.executed ps.length
  · rw [upsertEntries_of_accepted feedId now dbNow hs hacc] at h
    cases h
    rfl
  · obtain ⟨u, hu, -⟩ := upsertEntries_of_rejected feedId now dbNow hs hacc
    cases hu.symm.trans h

end

/-- Running the batch again in the same instant changes nothing. -/
theorem upsertAll_reflects (feedId : Int) (now dbNow : Datetime) (ps : List ParsedEntry)
    (s : Session) :
    (Session.upsertAll feedId now dbNow ps s).Reflects feedId dbNow ps := by
  have hlaw := upsertAll_law feedId now dbNow ps s
  constructor
  · intro p hp
    obtain ⟨e, he, hk⟩ := hlaw.stored p hp
    exact ⟨e, he, Entry.matches_iff_key.mpr hk⟩
  · intro e he
    cases hlast : (e.proposals feedId ps).getLast? with
    | none =>
        left
        rw [List.getLast?_eq_none_iff.mp hlast]
        exact nofun
    | some p =>
        obtain ⟨hp, hall | hu⟩ := hlaw.latest e he p hlast
        · exact .inl fun q hq ↦ Entry.carries_iff.mp (hall q hq)
        · exact .inr ⟨hu, p, hlast, Entry.carries_iff.mp hp⟩

/-! ## Runs of calls -/

/-- A call of `upsert_entries` in a transaction of its own. -/
structure UpsertCall where
  feedId : Int
  batch : List ParsedEntry
  now : Datetime
  dbNow : Datetime
  nextEntryId : Int
  fails : Nat → Bool

namespace UpsertCall

/-- The call succeeds and its transaction is committed. -/
def Step (t : List Entry) (c : UpsertCall) (t' : List Entry) : Prop :=
  ∃ d, upsertEntries c.fails c.feedId c.now c.dbNow c.batch (.start t c.nextEntryId) =
    (.ok ⟨⟩, d) ∧ t' = d.entries

theorem Step.law {t t' : List Entry} {c : UpsertCall} (h : Step t c t') :
    BatchLaw c.feedId c.now c.dbNow c.batch t t' := by
  obtain ⟨d, hd, rfl⟩ := h
  rw [entries_of_upsertEntries rfl hd]
  exact upsertAll_law c.feedId c.now c.dbNow c.batch (.start t c.nextEntryId)

/-- What a call is to make of a table. -/
structure Law (c : UpsertCall) (t t' : List Entry) : Prop where
  unique : Table.Keyed Entry.key t'
  stored : ∀ g, ∀ p ∈ (c.batch.filter fun q ↦ q.guid = g).getLast?,
    ∃ e ∈ t', e.feedId = c.feedId ∧ e.guid = g ∧ e.Carries p ∧
      ∀ f ∈ t', f.feedId = c.feedId → f.guid = g → f = e
  untouched : ∀ e : Entry, (e.feedId = c.feedId → ∀ p ∈ c.batch, p.guid ≠ e.guid) →
    (e ∈ t' ↔ e ∈ t)
  kept : ∀ e ∈ t, ∃ e' ∈ t', e.Continues e'
  created : ∀ e' ∈ t', (∃ e ∈ t, e.Continues e') ∨ e'.fetchedAt = c.now

theorem law_of_step {t t' : List Entry} {c : UpsertCall} (ht : Table.Keyed Entry.key t)
    (h : Step t c t') : c.Law t t' := by
  have hlaw := h.law
  refine ⟨hlaw.keyed ht, ?_, ?_, hlaw.kept, fun e he ↦ (hlaw.created e he).imp_right And.right⟩
  · intro g p hp
    have hmem : p ∈ c.batch.filter fun q ↦ q.guid = g := List.mem_of_getLast? hp
    obtain ⟨hbatch, hguid⟩ := List.mem_filter.mp hmem
    obtain rfl : p.guid = g := of_decide_eq_true hguid
    obtain ⟨e, he, hk⟩ := hlaw.stored p hbatch
    have hfeed : e.feedId = c.feedId := congrArg Prod.fst hk
    have heg : e.guid = p.guid := congrArg Prod.snd hk
    have hprop : e.proposals c.feedId c.batch = c.batch.filter fun q ↦ q.guid = p.guid := by
      refine List.filter_congr fun q _ ↦ ?_
      simp [Entry.Matches, hfeed, heg, eq_comm]
    refine ⟨e, he, hfeed, heg, (hlaw.latest e he p (by rw [hprop]; exact hp)).1, ?_⟩
    intro f hf hffeed hfg
    refine (hlaw.keyed ht).eq_of_key hf he (Eq.trans ?_ hk.symm)
    rw [Entry.key, hffeed, hfg]
  · intro e he
    refine hlaw.untouched e (List.filter_eq_nil_iff.mpr fun p hp hm ↦ ?_)
    obtain ⟨hfeed, hguid⟩ : e.Matches c.feedId p := of_decide_eq_true hm
    exact he hfeed p hp hguid.symm

/-- In every run from a table without duplicates there are none at any time, every row that
exists stays, with its id and `fetched_at`, and each call does what it is to do. -/
theorem store_law {t₀ t : List Entry} {cs : List UpsertCall} (h₀ : Table.Keyed Entry.key t₀)
    (hrun : Run Step t₀ cs t) :
    Table.Keyed Entry.key t ∧ (∀ e ∈ t₀, ∃ e' ∈ t, e.Continues e') ∧
      ∀ c t', Step t c t' → c.Law t t' := by
  have hinv : Table.Keyed Entry.key t ∧ ∀ e ∈ t₀, ∃ e' ∈ t, e.Continues e' := by
    refine hrun.invariant (P := fun t ↦ Table.Keyed Entry.key t ∧
      ∀ e ∈ t₀, ∃ e' ∈ t, e.Continues e') ?_ ⟨h₀, fun e he ↦ ⟨e, he, .refl e⟩⟩
    rintro u c v ⟨hu, hkept⟩ hstep
    refine ⟨hstep.law.keyed hu, fun e he ↦ ?_⟩
    obtain ⟨f, hf, hef⟩ := hkept e he
    obtain ⟨g, hg, hfg⟩ := hstep.law.kept f hf
    exact ⟨g, hg, hef.trans hfg⟩
  exact ⟨hinv.1, hinv.2, fun c t' hstep ↦ law_of_step hinv.1 hstep⟩

/-- The table after a call. -/
def result (t : List Entry) (c : UpsertCall) : List Entry :=
  (upsertEntries c.fails c.feedId c.now c.dbNow c.batch (.start t c.nextEntryId)).2.entries

/-- A call for feed 1 on a server that accepts everything. -/
def accepted (batch : List ParsedEntry) (now : Datetime) : UpsertCall :=
  ⟨1, batch, now, now, 1, fun _ ↦ false⟩

/-- On such a server the call succeeds. -/
theorem step_result {c : UpsertCall} (h : ∀ n, c.fails n = false) (t : List Entry) :
    Step t c (result t c) := by
  have hok : (upsertEntries c.fails c.feedId c.now c.dbNow c.batch (.start t c.nextEntryId)).1 =
      .ok ⟨⟩ := by
    rw [upsertEntries_of_accepted c.feedId c.now c.dbNow rfl fun n _ ↦ h _]
  exact ⟨_, Prod.ext hok rfl, rfl⟩

theorem step_accepted (t : List Entry) (batch : List ParsedEntry) (now : Datetime) :
    Step t (accepted batch now) (result t (accepted batch now)) := step_result (fun _ ↦ rfl) t

/-- The guid `g` with this title. -/
def titled (title : Char) : ParsedEntry := ⟨['g'], ['u'], some [title], none, none, none⟩

/-- A guid that occurs twice in a batch has one row, and only one. -/
theorem repeatedGuid_law :
    (accepted [titled 'a', titled 'b'] .year2000).Law []
      (result [] (accepted [titled 'a', titled 'b'] .year2000)) :=
  (store_law (.nil Entry.key) .nil).2.2 _ _ (step_accepted [] _ _)

/-! ## The same batch again -/

/-- Running the same batch again at a later time changes nothing exactly when the batch has no
guid with two contents. -/
theorem refetch_noop_iff {c c' : UpsertCall} {t t₁ t₂ : List Entry} (h : Step t c t₁)
    (h' : Step t₁ c' t₂) (hfeed : c'.feedId = c.feedId) (hbatch : c'.batch = c.batch)
    (hlater : c.dbNow < c'.dbNow) :
    t₂ = t₁ ↔ ∀ p ∈ c.batch, ∀ q ∈ c.batch, p.guid = q.guid → p = q := by
  obtain ⟨d, hd, rfl⟩ := h
  obtain ⟨d', hd', rfl⟩ := h'
  have hfirst : Session.Reflects c.feedId c.dbNow c.batch (.start d.entries c'.nextEntryId) := by
    have href := upsertAll_reflects c.feedId c.now c.dbNow c.batch (.start t c.nextEntryId)
    obtain ⟨hhas, hund⟩ := href
    have hentries : d.entries = (Session.upsertAll c.feedId c.now c.dbNow c.batch
        (.start t c.nextEntryId)).entries := entries_of_upsertEntries rfl hd
    constructor
    · intro p hp
      obtain ⟨e, he, hm⟩ := hhas p hp
      exact ⟨e, hentries ▸ he, hm⟩
    · intro e he
      exact hund e (hentries ▸ he)
  rw [hfeed, hbatch] at hd'
  have hiff := Session.upsertAll_entries_eq_iff c.feedId c'.now c'.dbNow c.batch
    (.start d.entries c'.nextEntryId)
  rw [← entries_of_upsertEntries rfl hd'] at hiff
  refine hiff.trans ⟨?_, ?_⟩
  · intro hr p hp q hq hguid
    obtain ⟨e, he, hm⟩ := hfirst.has p hp
    have hpe : p ∈ e.proposals c.feedId c.batch := List.mem_filter.mpr ⟨hp, decide_eq_true hm⟩
    have hqe : q ∈ e.proposals c.feedId c.batch :=
      List.mem_filter.mpr ⟨hq, decide_eq_true ⟨hm.1, hm.2.trans hguid⟩⟩
    have hall : ∀ r ∈ e.proposals c.feedId c.batch, ¬e.contentDiffers r := by
      rcases hfirst.undisturbed e he with hall | ⟨hu, -⟩
      · exact hall
      · rcases hr.undisturbed e he with hall | ⟨hu', -⟩
        · exact hall
        · -- the row cannot carry the instants of both calls
          rw [hu.symm.trans hu'] at hlater
          exact absurd hlater (lt_irrefl _)
    exact (Entry.carries_iff.mpr (hall p hpe)).unique (Entry.carries_iff.mpr (hall q hqe)) hguid
  · intro hsame
    refine ⟨hfirst.has, fun e he ↦ .inl ?_⟩
    rcases hfirst.undisturbed e he with hall | ⟨-, p, hp, hd⟩
    · exact hall
    · intro q hq
      obtain ⟨hpb, hpm⟩ := List.mem_filter.mp (List.mem_of_getLast? hp)
      obtain ⟨hqb, hqm⟩ := List.mem_filter.mp hq
      have hpm' : e.Matches c.feedId p := of_decide_eq_true hpm
      have hqm' : e.Matches c.feedId q := of_decide_eq_true hqm
      rw [hsame q hqb p hpb (hqm'.2.symm.trans hpm'.2)]
      exact hd

/-- A batch that names a guid twice. -/
def twice (now : Datetime) : UpsertCall := accepted [titled 'a', titled 'b'] now

/-- A guid with two contents makes the row flip to the first and back. -/
theorem repeatedGuid_touched :
    Step [] (twice .year2000) (result [] (twice .year2000)) ∧
    Step (result [] (twice .year2000)) (twice .year2101)
      (result (result [] (twice .year2000)) (twice .year2101)) ∧
    (result [] (twice .year2000)).map Entry.contentUpdatedAt = [.year2000] ∧
    (result (result [] (twice .year2000)) (twice .year2101)).map Entry.contentUpdatedAt =
      [.year2101] :=
  ⟨step_accepted [] [titled 'a', titled 'b'] .year2000,
    step_accepted _ [titled 'a', titled 'b'] .year2101, by decide +kernel, by decide +kernel⟩

/-- A batch that names it once. -/
def once (now : Datetime) : UpsertCall := accepted [titled 'a'] now

/-- Without repeated guids nothing changes. -/
theorem singleGuid_untouched :
    result (result [] (once .year2000)) (once .year2101) = result [] (once .year2000) := by
  have h := step_accepted [] [titled 'a'] .year2000
  have h' := step_accepted (result [] (once .year2000)) [titled 'a'] .year2101
  refine (refetch_noop_iff h h' rfl rfl (by decide)).mpr fun p hp q hq _ ↦ ?_
  exact (List.mem_singleton.mp hp).trans (List.mem_singleton.mp hq).symm

end UpsertCall

end FeedgateFetcher
