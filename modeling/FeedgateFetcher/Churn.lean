import FeedgateFetcher.EntryCaps
import FeedgateFetcher.Service

/-!
# Documents that do not change

A feed whose document stays the same is fetched again and again.  Two fetches at most change what
is stored of it, one for each of the caps; and only what deletes entries of the feed, a sweep or
its removal, makes room for two more, however the fetches overlap.
-/

namespace FeedgateFetcher

open Python Logic

/-! ## A batch that is stored already -/

/-- Every entry of the batch has a row, with its content. -/
def Mirrors (feedId : Int) (ps : List ParsedEntry) (t : List Entry) : Prop :=
  ∀ p ∈ ps, ∃ e ∈ t, e.key = (feedId, p.guid) ∧ e.Carries p

instance (e : Entry) (p : ParsedEntry) : Decidable (e.Carries p) :=
  decidable_of_iff _ Entry.carries_iff.symm

instance (feedId : Int) (ps : List ParsedEntry) (t : List Entry) :
    Decidable (Mirrors feedId ps t) :=
  inferInstanceAs (Decidable (∀ p ∈ ps, ∃ e ∈ t, _ ∧ _))

section

variable {feedId : Int} {now dbNow : Datetime} {ps qs : List ParsedEntry} {s : Session}

theorem Mirrors.mono {t : List Entry} (h : Mirrors feedId qs t) (hsub : ps ⊆ qs) :
    Mirrors feedId ps t := fun p hp ↦ h p (hsub hp)

/-- It depends on the entries of the feed. -/
theorem mirrors_ofFeed_iff : Mirrors feedId ps (s.ofFeed feedId) ↔ Mirrors feedId ps s.entries := by
  refine forall₂_congr fun p _ ↦ ⟨?_, ?_⟩
  · rintro ⟨e, he, hmatches⟩
    exact ⟨e, (Session.mem_ofFeed.mp he).1, hmatches⟩
  · rintro ⟨e, he, hmatches⟩
    exact ⟨e, Session.mem_ofFeed.mpr ⟨he, congrArg Prod.fst hmatches.1⟩, hmatches⟩

/-- A batch that is stored already leaves the table as it is. -/
theorem Mirrors.upsertAll (hkeys : Table.Keyed Entry.key s.entries)
    (h : Mirrors feedId ps s.entries) (now dbNow : Datetime) :
    (Session.upsertAll feedId now dbNow ps s).entries = s.entries := by
  rw [Session.upsertAll_entries_eq_iff]
  refine ⟨fun p hp ↦ ?_, fun e he ↦ .inl fun p hp ↦ ?_⟩
  · obtain ⟨e, he, hkey, -⟩ := h p hp
    exact ⟨e, he, Entry.matches_iff_key.mpr hkey⟩
  · obtain ⟨hmem, hmatches⟩ := List.mem_filter.mp hp
    obtain ⟨f, hf, hkey, hcarries⟩ := h p hmem
    obtain rfl : e = f := hkeys.eq_of_key he hf
      ((Entry.matches_iff_key.mp (of_decide_eq_true hmatches)).trans hkey.symm)
    exact Entry.carries_iff.mp hcarries

/-- When a batch has nothing else under the guid of `p`, it leaves the row of that guid alone, or
makes it carry `p`. -/
theorem carries_of_upsertAll {p : ParsedEntry} {other : Int}
    (hps : other = feedId → ∀ q ∈ ps, q.guid = p.guid → q = p) {e : Entry}
    (he : e ∈ (Session.upsertAll other now dbNow ps s).entries) (hkey : e.key = (feedId, p.guid)) :
    (e ∈ s.entries ∧ (other = feedId → p ∉ ps)) ∨ e.Carries p := by
  have hlaw := upsertAll_law other now dbNow ps s
  cases hlast : (e.proposals other ps).getLast? with
  | none =>
      have hnone := List.getLast?_eq_none_iff.mp hlast
      refine .inl ⟨(hlaw.untouched e hnone).mp he, ?_⟩
      rintro rfl hp
      exact List.filter_eq_nil_iff.mp hnone p hp (decide_eq_true (Entry.matches_iff_key.mpr hkey))
  | some q =>
      obtain ⟨hmem, hmatches⟩ := List.mem_filter.mp (List.mem_of_getLast? hlast)
      have hproposed : (feedId, p.guid) = (other, q.guid) :=
        hkey.symm.trans (Entry.matches_iff_key.mp (of_decide_eq_true hmatches))
      obtain rfl : q = p :=
        hps (congrArg Prod.fst hproposed).symm q hmem (congrArg Prod.snd hproposed).symm
      exact .inr (hlaw.latest e he q hlast).1

/-- A batch without repeated guids is stored. -/
theorem mirrors_upsertAll (hguids : (ps.map ParsedEntry.guid).Nodup) (feedId : Int)
    (now dbNow : Datetime) (s : Session) :
    Mirrors feedId ps (Session.upsertAll feedId now dbNow ps s).entries := by
  intro p hp
  obtain ⟨e, he, hkey⟩ := (upsertAll_law feedId now dbNow ps s).stored p hp
  have honly : ∀ q ∈ ps, q.guid = p.guid → q = p := fun q hq hguid ↦
    List.inj_on_of_nodup_map hguids hq hp hguid
  rcases carries_of_upsertAll (fun _ ↦ honly) he hkey with ⟨-, hout⟩ | hcarries
  · exact absurd hp (hout rfl)
  · exact ⟨e, he, hkey, hcarries⟩

/-- A batch of another feed leaves the entries of the feed alone. -/
theorem ofFeed_upsertAll_of_ne {other : Int} (hne : feedId ≠ other) (now dbNow : Datetime)
    (ps : List ParsedEntry) (s : Session) :
    (Session.upsertAll other now dbNow ps s).ofFeed feedId = s.ofFeed feedId := by
  induction ps generalizing s with
  | nil => rfl
  | cons p ps ih =>
      rw [Session.upsertAll_cons, ih]
      by_cases h : s.Has other p
      · have hfeed : ∀ e : Entry, (e.receive other dbNow p).feedId = e.feedId :=
          fun e ↦ ((Entry.Revises.refl dbNow e).receive p).feedId
        have hother : ∀ e ∈ s.ofFeed feedId, e.receive other dbNow p = e := by
          intro e he
          exact if_neg fun hc ↦ hne ((Session.mem_ofFeed.mp he).2.symm.trans hc.1.1)
        rw [Session.upsertEntry_of_has h]
        simp only [Session.ofFeed, List.filter_map, Function.comp_def, hfeed]
        exact (List.map_congr_left hother).trans (List.map_id _)
      · rw [Session.upsertEntry_of_not_has h]
        simp [Session.ofFeed, ParsedEntry.toRow, hne.symm]

end

/-! ## The batches of one document -/

section

variable {up : Upstream} {cfg : Settings} {now : Datetime} {s : FetchState}
  {D : List ParsedEntry}

/-- The first fetch stores a part of what the later ones store. -/
theorem capEntries_subset (cfg : Settings) (hasEntries : Bool) (D : List ParsedEntry) :
    capEntries cfg hasEntries D ⊆ capEntries cfg true D := by
  cases hasEntries with
  | true => exact List.Subset.refl _
  | false =>
      rw [capEntries_eq_take, capEntries_eq_take]
      exact List.take_subset_take_left D (cappedLength_le _ _)

theorem nodup_capEntries (h : (D.map ParsedEntry.guid).Nodup) (cfg : Settings)
    (hasEntries : Bool) : ((capEntries cfg hasEntries D).map ParsedEntry.guid).Nodup := by
  rw [capEntries_eq_take]
  exact h.sublist ((List.take_sublist _ _).map _)

/-- Whatever the origin answers, a fetch stores nothing, or the entries of a document within the
caps. -/
theorem processedBatch_cases (up : Upstream) (cfg : Settings) (now : Datetime) (s : FetchState) :
    processedBatch up cfg now s = [] ∨
      ∃ body parsed hasEntries, parseFeed up.feedparser body = .ok parsed ∧
        processedBatch up cfg now s = capEntries cfg hasEntries parsed.entries := by
  unfold processedBatch storedBatch
  split
  · rename_i headers body _
    split
    · cases hp : parseFeed up.feedparser body with
      | error exc => exact .inl rfl
      | ok parsed => exact .inr ⟨body, parsed, _, hp, rfl⟩
    · exact .inl rfl
  · exact .inl rfl

/-- What is stored has been read from a document. -/
theorem exists_parsed {p : ParsedEntry} (h : p ∈ processedBatch up cfg now s) :
    ∃ body parsed, parseFeed up.feedparser body = .ok parsed ∧ p ∈ parsed.entries := by
  rcases processedBatch_cases up cfg now s with hnone | ⟨body, parsed, hasEntries, hp, hbatch⟩
  · rw [hnone] at h
    cases h
  · rw [hbatch, capEntries_eq_take] at h
    exact ⟨body, parsed, hp, List.mem_of_mem_take h⟩

end

/-! ## Runs -/

/-- A fetch of the feed reads no other document. -/
def ServiceAction.Serves (D : List ParsedEntry) (feedId : Int) : ServiceAction → Prop
  | .commit _ c up _ _ => c.feedId = feedId → ∀ body parsed,
    parseFeed up.feedparser body = .ok parsed → parsed.entries = D
  | _ => True

namespace Service

variable {cfg : Settings} {retention : RetentionSettings} {s s' t : Service} {a : ServiceAction}
  {D : List ParsedEntry} {feedId : Int}

/-- The entries of a feed. -/
def entriesOf (s : Service) (feedId : Int) : List Entry :=
  s.entries.filter fun e ↦ e.feedId = feedId

/-- A step while the document of the feed stays the same, and whether it changes the entries of the
feed. -/
def Watched (cfg : Settings) (retention : RetentionSettings) (D : List ParsedEntry) (feedId : Int)
    (s : Service) (l : ServiceAction × Bool) (s' : Service) : Prop :=
  s.Step cfg retention l.1 s' ∧ l.1.Serves D feedId ∧
    (l.2 = true ↔ s'.entriesOf feedId ≠ s.entriesOf feedId)

/-- Which of the two batches of the document are still to be stored. -/
def missing (cfg : Settings) (D : List ParsedEntry) (feedId : Int) (s : Service) : ℕ :=
  (if Mirrors feedId (capEntries cfg false D) (s.entriesOf feedId) then 0 else 1) +
    if Mirrors feedId (capEntries cfg true D) (s.entriesOf feedId) then 0 else 1

theorem missing_le (cfg : Settings) (D : List ParsedEntry) (feedId : Int) (s : Service) :
    s.missing cfg D feedId ≤ 2 := by
  unfold missing
  split_ifs <;> decide

theorem missing_congr (h : s'.entriesOf feedId = s.entriesOf feedId) :
    s'.missing cfg D feedId = s.missing cfg D feedId := by
  rw [missing, missing, h]

theorem mirrors_entriesOf_iff {ps : List ParsedEntry} :
    Mirrors feedId ps (s.entriesOf feedId) ↔ Mirrors feedId ps s.entries :=
  mirrors_ofFeed_iff (s := .start s.entries s.nextEntryId)

/-- A batch of the document that changes the entries of the feed was missing. -/
theorem missing_lt {now dbNow : Datetime} {hasEntries : Bool}
    (hstored : s'.entries = (Session.upsertAll feedId now dbNow (capEntries cfg hasEntries D)
      (.start s.entries s.nextEntryId)).entries)
    (hkeys : Table.Keyed Entry.key s.entries) (hD : (D.map ParsedEntry.guid).Nodup)
    (hchange : s'.entriesOf feedId ≠ s.entriesOf feedId) :
    s'.missing cfg D feedId < s.missing cfg D feedId := by
  have hbefore : ¬Mirrors feedId (capEntries cfg hasEntries D) s.entries := by
    intro hmirrors
    refine hchange (congrArg (List.filter _) (hstored.trans ?_))
    exact hmirrors.upsertAll (s := .start s.entries s.nextEntryId) hkeys now dbNow
  have hafter : Mirrors feedId (capEntries cfg hasEntries D) s'.entries := by
    rw [hstored]
    exact mirrors_upsertAll (nodup_capEntries hD cfg hasEntries) feedId now dbNow _
  unfold missing
  simp only [mirrors_entriesOf_iff]
  cases hasEntries with
  | false =>
      have hall : ¬Mirrors feedId (capEntries cfg true D) s.entries := fun h ↦
        hbefore (h.mono (capEntries_subset cfg false D))
      rw [if_pos hafter, if_neg hbefore, if_neg hall]
      split_ifs <;> decide
  | true =>
      have hfirst : Mirrors feedId (capEntries cfg false D) s'.entries :=
        hafter.mono (capEntries_subset cfg false D)
      rw [if_pos hafter, if_pos hfirst, if_neg hbefore]
      split_ifs <;> decide

/-- A commit that changes the entries of the feed stores a batch of the document. -/
theorem Step.missing_lt (hs : s.Step cfg retention a s') (hsound : s.Sound)
    (hserves : a.Serves D feedId) (hcommit : a.isCommit = true)
    (hD : (D.map ParsedEntry.guid).Nodup) (hchange : s'.entriesOf feedId ≠ s.entriesOf feedId) :
    s'.missing cfg D feedId < s.missing cfg D feedId := by
  cases hs with
  | @commit now c row up session domains cluster hstep hrow hdurable hfeed =>
      have hc : c ∈ s.cluster.held := by
        cases hstep with
        | finish _ hc _ _ _ _ => exact hc
      have hid := hsound.loaded c hc row hrow
      by_cases hcid : c.feedId = feedId
      · rcases processedBatch_cases up cfg c.now (Tracked.loaded session domains ⟨row, []⟩) with
          hnone | ⟨body, parsed, hasEntries, hp, hbatch⟩
        · refine absurd (congrArg (List.filter _) ?_) hchange
          rw [stored, hnone, Session.upsertAll_nil]
          rfl
        · have hstored : (s.stored cfg c up session domains row).entries =
              (Session.upsertAll feedId c.now up.dbNow (capEntries cfg hasEntries D)
                (.start s.entries s.nextEntryId)).entries := by
            rw [stored, hbatch, hserves hcid body parsed hp, hid, hcid]
          exact Service.missing_lt hstored hsound.guids hD hchange
      · refine absurd ?_ hchange
        exact ofFeed_upsertAll_of_ne (fun heq ↦ hcid (hid.symm.trans heq.symm)) c.now up.dbNow _
          (.start s.entries s.nextEntryId)
  | _ => cases hcommit

/-- A commit makes up for what it changes. -/
theorem Watched.commit_le (hsound : s.Sound) (hD : (D.map ParsedEntry.guid).Nodup)
    {l : ServiceAction × Bool} (hs : Watched cfg retention D feedId s l s') :
    s'.missing cfg D feedId + (if l.1.isCommit && l.2 then 1 else 0) ≤
      s.missing cfg D feedId + if !l.1.isCommit && l.2 then 2 else 0 := by
  obtain ⟨a, changes⟩ := l
  obtain ⟨hstep, hserves, hchanges⟩ := hs
  cases changes with
  | false =>
      have hsame : s'.entriesOf feedId = s.entriesOf feedId := by
        by_contra hne
        exact Bool.false_ne_true (hchanges.mpr hne)
      rw [missing_congr hsame, Bool.and_false, Bool.and_false]
      exact le_refl _
  | true =>
      cases hcommit : a.isCommit with
      | true => exact hstep.missing_lt hsound hserves hcommit hD (hchanges.mp rfl)
      | false => exact (s'.missing_le cfg D feedId).trans (Nat.le_add_left _ _)

/-- As long as the document of a feed stays the same, two of its fetches at most change what is
stored of it, and two more after each sweep or removal that has deleted entries of the feed; all
others write nothing, however they overlap. -/
theorem churn_bounded (h : s.Sound) (hD : (D.map ParsedEntry.guid).Nodup)
    {ls : List (ServiceAction × Bool)} (hr : Run (Watched cfg retention D feedId) s ls t) :
    (ls.countP fun l ↦ l.1.isCommit && l.2) ≤
      2 * (1 + ls.countP fun l ↦ !l.1.isCommit && l.2) := by
  have hrun := (hr.amortized (P := Sound) (fun _ _ _ hP hs ↦
    ⟨hP.step hs.1, hs.commit_le hP hD⟩) h).2
  have hstart := s.missing_le cfg D feedId
  omega

open Cluster (fresh leased firstClaim)

/-- The surroundings in which every answer carries a document of one entry. -/
def publishing : Upstream := .delivering 200 [] { entries := [{ id := some "post".toList }] }

/-- The entry of that document. -/
def published : ParsedEntry := ⟨"post".toList, "post".toList, none, none, none, none⟩

theorem publishing_parsed {body : Bytes} {parsed : ParsedFeed}
    (h : parseFeed publishing.feedparser body = .ok parsed) : parsed.entries = [published] := by
  by_cases hbody : body = feedDocument
  · subst hbody
    cases h
    rfl
  · rw [parseFeed, show publishing.feedparser body = none from if_neg hbody] at h
    cases h

/-- The first worker commits the document, which has not been stored before. -/
def firstPublished : ServiceAction × Bool :=
  (.commit .year2000 (firstClaim (some (leased (fresh 1)))) publishing (.start [] 1) [], true)

/-- The entries after that commit. -/
def publishedEntries : List Entry :=
  (tended.stored {} (firstClaim (some (leased (fresh 1)))) publishing (.start [] 1) []
    (leased (fresh 1))).entries

theorem tended_published : ∃ t, tended.Step {} {} firstPublished.1 t ∧
    t.entries = publishedEntries := by
  have hdurable : isDurable ((firstClaim (some (leased (fresh 1)))).run {} publishing
      (.start [] 1) [] (leased (fresh 1))) = true := by decide +kernel
  obtain ⟨t, ht, -⟩ := tended_sound.commit_enabled (List.mem_singleton.mpr rfl) rfl hdurable
    ⟨_, List.mem_singleton.mpr rfl, rfl⟩
  refine ⟨t, ht, ?_⟩
  cases ht with
  | commit _ hrow _ _ =>
      cases hrow
      rfl

theorem tended_churn : ∃ t, Run (Watched {} {} [published] 1) tended [firstPublished] t ∧
    ([firstPublished].countP fun l ↦ l.1.isCommit && l.2) ≤
      2 * (1 + [firstPublished].countP fun l ↦ !l.1.isCommit && l.2) := by
  obtain ⟨t, ht, hentries⟩ := tended_published
  have hserves : firstPublished.1.Serves [published] 1 := fun _ _ _ h ↦ publishing_parsed h
  have hchange : t.entriesOf 1 ≠ tended.entriesOf 1 := by
    rw [entriesOf, hentries]
    decide +kernel
  have hrun : Run (Watched {} {} [published] 1) tended [firstPublished] t :=
    Run.single ⟨ht, hserves, fun _ ↦ hchange, fun _ ↦ rfl⟩
  exact ⟨t, hrun, churn_bounded tended_sound (by decide) hrun⟩

end Service

end FeedgateFetcher
