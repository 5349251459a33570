import Mathlib.Data.List.Induction
import FeedgateFetcher.Fetcher.Http

/-!
# A batch against the table

`upsert_entries` seen from the rows.  When every proposed entry has a row already,
the table changes row by row: each receives the entries proposed under its key,
one after the other.  Otherwise the table grows.  The last result says which
batches leave a table as it is.
-/

namespace FeedgateFetcher

open Python Logic

/-! ## One row -/

namespace Entry

/-- The row is the one that the entry conflicts with. -/
def Matches (feedId : Int) (e : Entry) (p : ParsedEntry) : Prop :=
  e.feedId = feedId ∧ e.guid = p.guid

instance (feedId : Int) (e : Entry) (p : ParsedEntry) : Decidable (e.Matches feedId p) :=
  inferInstanceAs (Decidable (_ ∧ _))

/-- The row after a proposed entry. -/
def receive (feedId : Int) (dbNow : Datetime) (e : Entry) (p : ParsedEntry) : Entry :=
  if e.Matches feedId p ∧ e.contentDiffers p then e.overwrite p dbNow else e

/-- A later revision of a row, written at `dbNow` unless nothing was written. -/
structure Revises (dbNow : Datetime) (e r : Entry) : Prop where
  id : r.id = e.id
  feedId : r.feedId = e.feedId
  guid : r.guid = e.guid
  fetchedAt : r.fetchedAt = e.fetchedAt
  updated : r.contentUpdatedAt = e.contentUpdatedAt ∨ r.contentUpdatedAt = dbNow

variable {feedId : Int} {dbNow : Datetime} {e r : Entry} {p : ParsedEntry} {ps : List ParsedEntry}

theorem Revises.refl (dbNow : Datetime) (e : Entry) : Revises dbNow e e :=
  ⟨rfl, rfl, rfl, rfl, .inl rfl⟩

theorem Revises.receive (h : Revises dbNow e r) (p : ParsedEntry) :
    Revises dbNow e (r.receive feedId dbNow p) := by
  unfold Entry.receive
  split
  · exact ⟨h.id, h.feedId, h.guid, h.fetchedAt, .inr rfl⟩
  · exact h

theorem Revises.receiveAll (h : Revises dbNow e r) (feedId : Int) (ps : List ParsedEntry) :
    Revises dbNow e (ps.foldl (Entry.receive feedId dbNow) r) := by
  induction ps generalizing r with
  | nil => exact h
  | cons p ps ih => exact ih (h.receive p)

/-- A revision has the key of the row. -/
theorem Revises.matches_iff (h : Revises dbNow e r) : r.Matches feedId p ↔ e.Matches feedId p := by
  unfold Matches
  rw [h.feedId, h.guid]

theorem not_contentDiffers_iff : ¬e.contentDiffers p ↔
    e.url = p.url ∧ e.title = p.title ∧ e.content = p.content ∧ e.author = p.author ∧
      e.publishedAt = p.publishedAt := by
  simp only [contentDiffers, not_or, not_not]

/-- A revision with the content and the edit instant of the row is the row. -/
theorem Revises.eq_of_content (h : Revises dbNow e r) (hr : ¬r.contentDiffers p)
    (he : ¬e.contentDiffers p) (hu : r.contentUpdatedAt = e.contentUpdatedAt) : r = e := by
  obtain ⟨h₁, h₂, h₃, h₄, h₅⟩ := not_contentDiffers_iff.mp hr
  obtain ⟨k₁, k₂, k₃, k₄, k₅⟩ := not_contentDiffers_iff.mp he
  exact Entry.ext h.id h.feedId h.guid (h₁.trans k₁.symm) (h₂.trans k₂.symm) (h₃.trans k₃.symm)
    (h₄.trans k₄.symm) (h₅.trans k₅.symm) h.fetchedAt hu

/-- The entries that a batch proposes for the key of the row. -/
def proposals (feedId : Int) (ps : List ParsedEntry) (e : Entry) : List ParsedEntry :=
  ps.filter fun p ↦ e.Matches feedId p

/-- Every entry proposed for the row has its content; or the last one does, and the row already
carries the edit instant that the batch would write. -/
def Undisturbed (feedId : Int) (dbNow : Datetime) (ps : List ParsedEntry) (e : Entry) : Prop :=
  (∀ p ∈ e.proposals feedId ps, ¬e.contentDiffers p) ∨
    (e.contentUpdatedAt = dbNow ∧ ∃ p ∈ (e.proposals feedId ps).getLast?, ¬e.contentDiffers p)

theorem undisturbed_of_not_matches (h : ¬e.Matches feedId p) :
    e.Undisturbed feedId dbNow (ps ++ [p]) ↔ e.Undisturbed feedId dbNow ps := by
  have hp : e.proposals feedId (ps ++ [p]) = e.proposals feedId ps := by
    simp [proposals, h]
  unfold Undisturbed
  rw [hp]

theorem undisturbed_of_matches (h : e.Matches feedId p) :
    e.Undisturbed feedId dbNow (ps ++ [p]) ↔
      ¬e.contentDiffers p ∧
        ((∀ q ∈ e.proposals feedId ps, ¬e.contentDiffers q) ∨ e.contentUpdatedAt = dbNow) := by
  have hp : e.proposals feedId (ps ++ [p]) = e.proposals feedId ps ++ [p] := by
    simp [proposals, h]
  unfold Undisturbed
  rw [hp]
  simp only [List.mem_append, List.mem_singleton, List.getLast?_append, List.getLast?_singleton,
    Option.some_or, Option.mem_some_iff, exists_eq_left']
  constructor
  · rintro (hall | ⟨hu, hd⟩)
    · exact ⟨hall p (.inr rfl), .inl fun q hq ↦ hall q (.inl hq)⟩
    · exact ⟨hd, .inr hu⟩
  · rintro ⟨hd, hall | hu⟩
    · refine .inl fun q hq ↦ ?_
      rcases hq with hq | rfl
      · exact hall q hq
      · exact hd
    · exact .inr ⟨hu, hd⟩

/-- A row is what it was after a batch exactly when the batch does not disturb it. -/
theorem receiveAll_eq_self_iff :
    ps.foldl (receive feedId dbNow) e = e ↔ e.Undisturbed feedId dbNow ps := by
  induction ps using List.reverseRecOn with
  | nil => exact ⟨fun _ ↦ .inl nofun, fun _ ↦ rfl⟩
  | append_singleton ps p ih =>
      rw [List.foldl_append, List.foldl_cons, List.foldl_nil]
      have hrev := (Revises.refl dbNow e).receiveAll feedId ps
      generalize ps.foldl (receive feedId dbNow) e = r at ih hrev ⊢
      by_cases hm : e.Matches feedId p
      · rw [undisturbed_of_matches hm]
        unfold receive
        simp only [hrev.matches_iff, hm, true_and]
        constructor
        · intro h
          split at h
          · -- the last proposal was written, so the row carries its content and `dbNow`
            subst h
            exact ⟨not_contentDiffers_iff.mpr ⟨rfl, rfl, rfl, rfl, rfl⟩, .inr rfl⟩
          · rename_i hd
            subst h
            exact ⟨hd, (ih.mp rfl).imp (fun hall ↦ hall) And.left⟩
        · rintro ⟨hd, hall | hu⟩
          · obtain rfl := ih.mpr (.inl hall)
            rw [if_neg hd]
          · split
            · have hrev' : Revises dbNow e (r.overwrite p dbNow) :=
                ⟨hrev.id, hrev.feedId, hrev.guid, hrev.fetchedAt, .inr rfl⟩
              exact hrev'.eq_of_content (not_contentDiffers_iff.mpr ⟨rfl, rfl, rfl, rfl, rfl⟩) hd
                hu.symm
            · rename_i hd'
              exact hrev.eq_of_content hd' hd
                (hrev.updated.elim (fun h ↦ h) fun h ↦ h.trans hu.symm)
      · rw [undisturbed_of_not_matches hm, ← ih]
        unfold receive
        rw [if_neg fun h ↦ hm (hrev.matches_iff.mp h.1)]

end Entry

/-! ## The table -/

namespace Session

variable {feedId : Int} {now dbNow : Datetime} {p : ParsedEntry} {ps : List ParsedEntry}
  {s : Session}

/-- Some row conflicts with the entry. -/
def Has (feedId : Int) (s : Session) (p : ParsedEntry) : Prop :=
  ∃ e ∈ s.entries, e.Matches feedId p

theorem upsertEntry_of_has (h : s.Has feedId p) :
    upsertEntry feedId now dbNow p s =
      { s with
        nextEntryId := s.nextEntryId + 1
        entries := s.entries.map fun e ↦ e.receive feedId dbNow p } := by
  obtain ⟨e, he, hm⟩ := h
  unfold upsertEntry
  dsimp only
  rw [if_pos (List.any_eq_true.mpr ⟨e, he, decide_eq_true hm⟩)]
  rfl

theorem upsertEntry_of_not_has (h : ¬s.Has feedId p) :
    upsertEntry feedId now dbNow p s =
      { s with
        nextEntryId := s.nextEntryId + 1
        entries := s.entries ++ [p.toRow s.nextEntryId feedId now] } := by
  unfold upsertEntry
  dsimp only
  rw [if_neg]
  rintro hany
  obtain ⟨e, he, hm⟩ := List.any_eq_true.mp hany
  exact h ⟨e, he, of_decide_eq_true hm⟩

/-- All entries of a batch, one after the other. -/
def upsertAll (feedId : Int) (now dbNow : Datetime) (ps : List ParsedEntry) (s : Session) :
    Session := ps.foldl (fun s p ↦ upsertEntry feedId now dbNow p s) s

@[simp] theorem upsertAll_nil : upsertAll feedId now dbNow [] s = s := rfl

@[simp] theorem upsertAll_cons : upsertAll feedId now dbNow (p :: ps) s =
    upsertAll feedId now dbNow ps (upsertEntry feedId now dbNow p s) := rfl

/-- An update of existing rows changes no key. -/
theorem has_upsertEntry_iff (now dbNow : Datetime) (h : s.Has feedId p) (q : ParsedEntry) :
    (upsertEntry feedId now dbNow p s).Has feedId q ↔ s.Has feedId q := by
  have hkey : ∀ e : Entry, (e.receive feedId dbNow p).Matches feedId q ↔ e.Matches feedId q :=
    fun e ↦ ((Entry.Revises.refl dbNow e).receive p).matches_iff
  rw [upsertEntry_of_has h]
  constructor
  · rintro ⟨_, he, hm⟩
    obtain ⟨e, hmem, rfl⟩ := List.mem_map.mp he
    exact ⟨e, hmem, (hkey e).mp hm⟩
  · rintro ⟨e, he, hm⟩
    exact ⟨_, List.mem_map_of_mem he, (hkey e).mpr hm⟩

/-- A batch that proposes no new entry updates the rows in place. -/
theorem upsertAll_of_has (h : ∀ p ∈ ps, s.Has feedId p) :
    (upsertAll feedId now dbNow ps s).entries =
      s.entries.map fun e ↦ ps.foldl (Entry.receive feedId dbNow) e := by
  induction ps generalizing s with
  | nil => exact (List.map_id _).symm
  | cons p ps ih =>
      have hp := h p List.mem_cons_self
      rw [upsertAll_cons, ih fun q hq ↦ (has_upsertEntry_iff _ _ hp q).mpr (h q (.tail _ hq)),
        upsertEntry_of_has hp, List.map_map]
      rfl

theorem length_le_upsertAll (ps : List ParsedEntry) (s : Session) :
    s.entries.length ≤ (upsertAll feedId now dbNow ps s).entries.length := by
  induction ps generalizing s with
  | nil => exact le_refl _
  | cons p ps ih =>
      refine le_trans ?_ (ih (upsertEntry feedId now dbNow p s))
      by_cases h : s.Has feedId p
      · rw [upsertEntry_of_has h, List.length_map]
      · rw [upsertEntry_of_not_has h, List.length_append]
        exact Nat.le_add_right _ _

/-- A batch that proposes a new entry makes the table grow. -/
theorem length_lt_upsertAll (now dbNow : Datetime) (hp : p ∈ ps) (h : ¬s.Has feedId p) :
    s.entries.length < (upsertAll feedId now dbNow ps s).entries.length := by
  induction ps generalizing s with
  | nil => cases hp
  | cons q ps ih =>
      by_cases hq : s.Has feedId q
      · have hne : p ≠ q := by
          rintro rfl
          exact h hq
        have hlen := ih ((List.mem_cons.mp hp).resolve_left hne)
          (mt (has_upsertEntry_iff now dbNow hq p).mp h)
        have heq : (upsertEntry feedId now dbNow q s).entries.length = s.entries.length := by
          rw [upsertEntry_of_has hq, List.length_map]
        exact heq ▸ hlen
      · refine lt_of_lt_of_le ?_ (length_le_upsertAll ps (upsertEntry feedId now dbNow q s))
        rw [upsertEntry_of_not_has hq, List.length_append]
        exact Nat.lt_succ_self _

/-- The batch has nothing to say that the table does not say already. -/
structure Reflects (feedId : Int) (dbNow : Datetime) (ps : List ParsedEntry) (s : Session) :
    Prop where
  has : ∀ p ∈ ps, s.Has feedId p
  undisturbed : ∀ e ∈ s.entries, e.Undisturbed feedId dbNow ps

/-- The entries of one feed. -/
def ofFeed (feedId : Int) (s : Session) : List Entry := s.entries.filter fun e ↦ e.feedId = feedId

/-- The session without the entries of other feeds. -/
def restrict (feedId : Int) (s : Session) : Session := { s with entries := s.ofFeed feedId }

theorem mem_ofFeed {e : Entry} : e ∈ s.ofFeed feedId ↔ e ∈ s.entries ∧ e.feedId = feedId := by
  rw [ofFeed, List.mem_filter, decide_eq_true_iff]

theorem has_restrict_iff : (s.restrict feedId).Has feedId p ↔ s.Has feedId p := by
  constructor
  · rintro ⟨e, he, hm⟩
    exact ⟨e, (mem_ofFeed.mp he).1, hm⟩
  · rintro ⟨e, he, hm⟩
    exact ⟨e, mem_ofFeed.mpr ⟨he, hm.1⟩, hm⟩

/-- An upsert neither reads nor writes the entries of other feeds. -/
theorem restrict_upsertEntry (p : ParsedEntry) (s : Session) :
    (upsertEntry feedId now dbNow p s).restrict feedId =
      upsertEntry feedId now dbNow p (s.restrict feedId) := by
  by_cases h : s.Has feedId p
  · rw [upsertEntry_of_has h, upsertEntry_of_has (has_restrict_iff.mpr h)]
    have hfeed : ∀ e : Entry, (e.receive feedId dbNow p).feedId = e.feedId :=
      fun e ↦ ((Entry.Revises.refl dbNow e).receive p).feedId
    simp only [restrict, ofFeed, List.filter_map, Function.comp_def, hfeed]
  · rw [upsertEntry_of_not_has h, upsertEntry_of_not_has (mt has_restrict_iff.mp h)]
    simp [restrict, ofFeed, ParsedEntry.toRow]

theorem restrict_upsertAll (feedId : Int) (now dbNow : Datetime) (ps : List ParsedEntry)
    (s : Session) :
    (upsertAll feedId now dbNow ps s).restrict feedId =
      upsertAll feedId now dbNow ps (s.restrict feedId) := by
  induction ps generalizing s with
  | nil => rfl
  | cons p ps ih => rw [upsertAll_cons, ih, restrict_upsertEntry, upsertAll_cons]

theorem reflects_restrict_iff :
    (s.restrict feedId).Reflects feedId dbNow ps ↔ s.Reflects feedId dbNow ps := by
  constructor
  · rintro ⟨hh, hu⟩
    refine ⟨fun p hp ↦ has_restrict_iff.mp (hh p hp), fun e he ↦ ?_⟩
    by_cases hf : e.feedId = feedId
    · exact hu e (mem_ofFeed.mpr ⟨he, hf⟩)
    · -- nothing is proposed for a row of another feed
      refine .inl fun p hp ↦ absurd ?_ hf
      exact (of_decide_eq_true (List.mem_filter.mp hp).2).1
  · rintro ⟨hh, hu⟩
    exact ⟨fun p hp ↦ has_restrict_iff.mpr (hh p hp), fun e he ↦ hu e (mem_ofFeed.mp he).1⟩

/-- A table is what it was after a batch exactly when it reflects the batch. -/
theorem upsertAll_entries_eq_iff (feedId : Int) (now dbNow : Datetime) (ps : List ParsedEntry)
    (s : Session) :
    (upsertAll feedId now dbNow ps s).entries = s.entries ↔ s.Reflects feedId dbNow ps := by
  by_cases h : ∀ p ∈ ps, s.Has feedId p
  · rw [upsertAll_of_has h]
    constructor
    · intro hmap
      have hfix := List.map_inj_left.mp (hmap.trans (List.map_id _).symm)
      exact ⟨h, fun e he ↦ Entry.receiveAll_eq_self_iff.mp (hfix e he)⟩
    · rintro ⟨-, hu⟩
      exact (List.map_congr_left fun e he ↦ Entry.receiveAll_eq_self_iff.mpr (hu e he)).trans
        (List.map_id _)
  · constructor
    · intro heq
      obtain ⟨p, hp, hn⟩ : ∃ p ∈ ps, ¬s.Has feedId p := by simpa using h
      have hlt := length_lt_upsertAll now dbNow hp hn
      rw [heq] at hlt
      exact absurd hlt (lt_irrefl _)
    · exact fun hr ↦ absurd hr.has h

/-- The same for the entries of the feed alone. -/
theorem upsertAll_ofFeed_eq_iff (now : Datetime) :
    (upsertAll feedId now dbNow ps s).ofFeed feedId = s.ofFeed feedId ↔
      s.Reflects feedId dbNow ps := by
  have h := congrArg Session.entries (restrict_upsertAll feedId now dbNow ps s)
  have h' : (upsertAll feedId now dbNow ps s).ofFeed feedId =
      (upsertAll feedId now dbNow ps (s.restrict feedId)).entries := h
  rw [h', ← reflects_restrict_iff]
  exact upsertAll_entries_eq_iff feedId now dbNow ps (s.restrict feedId)

end Session

/-! ## The statements of a batch -/

/-- The server accepts the `count` statements that follow the first `executed` ones. -/
def Accepts (fails : Nat → Bool) (executed count : Nat) : Prop :=
  ∀ i < count, fails (executed + i) = false

instance (fails : Nat → Bool) (executed count : Nat) : Decidable (Accepts fails executed count) :=
  inferInstanceAs (Decidable (∀ i < count, fails (executed + i) = false))

theorem accepts_succ {fails : Nat → Bool} {executed count : Nat} :
    Accepts fails executed (count + 1) ↔
      fails executed = false ∧ Accepts fails (executed + 1) count := by
  constructor
  · refine fun h ↦ ⟨h 0 (Nat.succ_pos _), fun i hi ↦ ?_⟩
    rw [Nat.add_right_comm]
    exact h (i + 1) (Nat.succ_lt_succ hi)
  · rintro ⟨h, h'⟩ (_ | i) hi
    · exact h
    · have := h' i (Nat.lt_of_succ_lt_succ hi)
      rwa [Nat.add_right_comm] at this

section

variable {α : Type} {fails : Nat → Bool} {feedId : Int} {now dbNow : Datetime}
  {ps : List ParsedEntry} {s : Session} {statement : Statement} {run : Session → α × Session}

theorem Session.execute_of_accepted (hs : s.abortedBy = none) (h : fails s.executed = false) :
    Session.execute fails statement run s =
      (.ok (run s).1, { (run s).2 with executed := s.executed + 1 }) := by
  simp [Session.execute, hs, h]

theorem Session.execute_of_rejected (hs : s.abortedBy = none) (h : fails s.executed = true) :
    Session.execute fails statement run s =
      (.error .database, { s with executed := s.executed + 1, abortedBy := some statement }) := by
  simp [Session.execute, hs, h]

@[simp] theorem upsertEntry_abortedBy (p : ParsedEntry) :
    (upsertEntry feedId now dbNow p s).abortedBy = s.abortedBy := by
  by_cases h : s.Has feedId p
  · rw [Session.upsertEntry_of_has h]
  · rw [Session.upsertEntry_of_not_has h]

@[simp] theorem upsertEntry_executed (p : ParsedEntry) (n : Nat) :
    upsertEntry feedId now dbNow p { s with executed := n } =
      { upsertEntry feedId now dbNow p s with executed := n } := by
  by_cases h : s.Has feedId p
  · rw [Session.upsertEntry_of_has h, Session.upsertEntry_of_has (s := { s with executed := n }) h]
  · rw [Session.upsertEntry_of_not_has h,
      Session.upsertEntry_of_not_has (s := { s with executed := n }) h]

theorem upsertAll_executed (ps : List ParsedEntry) (s : Session) (n : Nat) :
    Session.upsertAll feedId now dbNow ps { s with executed := n } =
      { Session.upsertAll feedId now dbNow ps s with executed := n } := by
  induction ps generalizing s with
  | nil => rfl
  | cons p ps ih => rw [Session.upsertAll_cons, upsertEntry_executed, ih, Session.upsertAll_cons]

@[simp] theorem upsertAll_abortedBy (ps : List ParsedEntry) (s : Session) :
    (Session.upsertAll feedId now dbNow ps s).abortedBy = s.abortedBy := by
  induction ps generalizing s with
  | nil => rfl
  | cons p ps ih => rw [Session.upsertAll_cons, ih, upsertEntry_abortedBy]

/-- A batch whose statements are all accepted is stored. -/
theorem upsertEntries_of_accepted (feedId : Int) (now dbNow : Datetime) (hs : s.abortedBy = none)
    (h : Accepts fails s.executed ps.length) :
    upsertEntries fails feedId now dbNow ps s =
      (.ok ⟨⟩, { Session.upsertAll feedId now dbNow ps s with
        executed := s.executed + ps.length }) := by
  induction ps generalizing s with
  | nil => rfl
  | cons p ps ih =>
      obtain ⟨hp, hps⟩ := accepts_succ.mp h
      unfold upsertEntries
      rw [Act.bind_of_ok (Session.execute_of_accepted hs hp), ih (by simpa using hs) hps,
        upsertAll_executed]
      simp only [Session.upsertAll_cons, List.length_cons, Nat.add_assoc, Nat.add_comm 1]

/-- A batch with a rejected statement aborts the transaction. -/
theorem upsertEntries_of_rejected (feedId : Int) (now dbNow : Datetime) (hs : s.abortedBy = none)
    (h : ¬Accepts fails s.executed ps.length) :
    ∃ t, upsertEntries fails feedId now dbNow ps s = (.error .database, t) ∧
      t.abortedBy ≠ none := by
  induction ps generalizing s with
  | nil => exact absurd (fun i hi ↦ absurd hi (Nat.not_lt_zero i)) h
  | cons p ps ih =>
      unfold upsertEntries
      cases hp : fails s.executed with
      | true => exact ⟨_, Act.bind_of_error (Session.execute_of_rejected hs hp), nofun⟩
      | false =>
          rw [Act.bind_of_ok (Session.execute_of_accepted hs hp)]
          exact ih (by simpa using hs) fun hps ↦ h (accepts_succ.mpr ⟨hp, hps⟩)

end

/-! ## Storing a document -/

/-- The entries of a document that are sent to the database. -/
def batchOf (cfg : Settings) (s : FetchState) (parsed : ParsedFeed) : List ParsedEntry :=
  capEntries cfg (s.session.hasEntries s.feed.id) parsed.entries

/-- The server accepts every statement of the document, `executed` having been sent before. -/
def StoreAccepted (up : Upstream) (cfg : Settings) (s : FetchState) (executed : Nat)
    (parsed : ParsedFeed) : Prop :=
  parsed.entries = [] ∨ Accepts up.statementFails executed ((batchOf cfg s parsed).length + 1)

instance (up : Upstream) (cfg : Settings) (s : FetchState) (executed : Nat) (parsed : ParsedFeed) :
    Decidable (StoreAccepted up cfg s executed parsed) := inferInstanceAs (Decidable (_ ∨ _))

section

variable {up : Upstream} {cfg : Settings} {now : Datetime} {s : FetchState} {parsed : ParsedFeed}

theorem capEntries_nil (hasExisting : Bool) : capEntries cfg hasExisting [] = [] := by
  have hn : ∀ n : Int, Text.sliceTo n ([] : List ParsedEntry) = [] := fun n ↦ by
    simp [Text.sliceTo]
  simp [capEntries, hn]

theorem storeEntries_of_accepted (now : Datetime) (hs : s.session.abortedBy = none)
    (h : StoreAccepted up cfg s s.session.executed parsed) :
    ∃ n, storeEntries up cfg now parsed.entries s = (.ok ⟨⟩, { s with
      session := { Session.upsertAll s.feed.id now up.dbNow (batchOf cfg s parsed) s.session with
        executed := n } }) := by
  unfold storeEntries
  by_cases he : parsed.entries = []
  · refine ⟨s.session.executed, ?_⟩
    rw [batchOf, he, capEntries_nil, Session.upsertAll_nil]
    rfl
  · obtain ⟨hex, hps⟩ := accepts_succ.mp (h.resolve_left he)
    rw [if_neg (by simpa using he), Act.get_bind_apply,
      Act.bind_of_ok (onSession_of_run (Session.execute_of_accepted hs hex))]
    have hall := upsertEntries_of_accepted s.feed.id now up.dbNow
      (s := { s.session with executed := s.session.executed + 1 }) hs hps
    rw [upsertAll_executed] at hall
    exact ⟨_, onSession_of_run hall⟩

theorem storeEntries_of_rejected (now : Datetime) (hs : s.session.abortedBy = none)
    (h : ¬StoreAccepted up cfg s s.session.executed parsed) :
    ∃ d, storeEntries up cfg now parsed.entries s = (.error .database, { s with session := d }) ∧
      d.abortedBy ≠ none := by
  obtain ⟨he, hacc⟩ := not_or.mp h
  unfold storeEntries
  rw [if_neg (by simpa using he), Act.get_bind_apply]
  cases hex : up.statementFails s.session.executed with
  | true =>
      exact ⟨_, Act.bind_of_error (onSession_of_run (Session.execute_of_rejected hs hex)), nofun⟩
  | false =>
      rw [Act.bind_of_ok (onSession_of_run (Session.execute_of_accepted hs hex))]
      obtain ⟨d, hd, hab⟩ := upsertEntries_of_rejected s.feed.id now up.dbNow
        (s := { s.session with executed := s.session.executed + 1 }) hs
        fun hps ↦ hacc (accepts_succ.mpr ⟨hex, hps⟩)
      exact ⟨_, onSession_of_run hd, hab⟩

end

end FeedgateFetcher
