import FeedgateFetcher.Delivery
import FeedgateFetcher.Validators

/-!
# What a validator vouches for

An ETag names a document.  When every document carries one, the row of a feed has the ETag of the
document that its entries tell: an origin that answers "not modified" to it confirms what is
stored.  Only a sweep takes entries of that document away.
-/

namespace FeedgateFetcher

open Python Logic Table

/-! ## The document of a fetch -/

section

variable {up : Upstream} {cfg : Settings} {now : Datetime} {s : FetchState}

/-- A fetch that is committed has stored no entries and kept the ETag, or it has stored the entries
of a document, and the ETag if there is one. -/
theorem document_cases (h : isDurable (processing up cfg now s) = true) :
    (processedBatch up cfg now s = [] ∧ (processing up cfg now s).2.feed.etag = s.feed.etag) ∨
      ∃ headers body parsed hasEntries,
        answerOf up cfg now (load up s).2 = some (.document headers body) ∧
        parseFeed up.feedparser body = .ok parsed ∧
        processedBatch up cfg now s = capEntries cfg hasEntries parsed.entries ∧
        (processing up cfg now s).2.feed.etag = (headers.get "etag".toList).or s.feed.etag := by
  obtain ⟨s₁, s₂, hl, hf, hc⟩ := processing_of_durable h
  have hloaded : s₁.feed.etag = s.feed.etag := by
    rw [load_ok hl]
    rfl
  have hprepare := keeps_prepare (p := fun t ↦ t.feed.etag) up now (fun _ ↦ rfl)
    (fun _ _ ↦ rfl) s₁
  rcases hp : prepare up now s₁ with ⟨exc | weekly, s'⟩
  · rw [fetchOne, Act.bind_of_error hp] at hf
    cases hf
  rw [hp] at hprepare
  have hcolumn := fetchOne_column cfg (p := Feed.etag) (fun _ _ ↦ rfl) (fun _ _ ↦ rfl)
    (fun _ _ ↦ rfl) hp
  rw [hf, ← (commit_ok hc).1] at hcolumn
  have hcontact : (contact up cfg s').2.feed.etag = s.feed.etag :=
    (congrArg (fun a : Account ↦ a.feed.etag) (keeps_account_contact up cfg s')).trans
      (hprepare.trans hloaded)
  rw [hcolumn, processedBatch, hl]
  unfold storedBatch answerOf
  dsimp only
  rw [hp]
  dsimp only
  rcases hx : contact up cfg s' with ⟨exc | headers | headers | ⟨headers, body⟩, s''⟩
  · rw [hx] at hcontact
    exact .inl ⟨rfl, hcontact⟩
  · rw [hx] at hcontact
    exact .inl ⟨rfl, hcontact⟩
  · rw [hx] at hcontact
    exact .inl ⟨rfl, hcontact⟩
  · rw [hx] at hcontact
    dsimp only [storedHeaders]
    by_cases hr : documentRefusal up cfg s₁ headers body = none
    · rw [if_pos hr, if_pos hr]
      cases hparsed : parseFeed up.feedparser body with
      | error exc =>
          unfold documentRefusal at hr
          rw [hparsed] at hr
          split at hr <;> cases hr
      | ok parsed =>
          refine .inr ⟨headers, body, parsed, _, rfl, hparsed, rfl, ?_⟩
          exact congrArg (headers.get "etag".toList).or hcontact
    · rw [if_neg hr, if_neg hr]
      exact .inl ⟨rfl, hcontact⟩

end

/-! ## The ETag of a request -/

theorem reactivateFeed_etag (now : Datetime) (r : Tracked) :
    (reactivateFeed now r).feed.etag = r.feed.etag := by
  unfold reactivateFeed
  split <;> rfl

/-- What is sent is the ETag of the row. -/
theorem etag_of_sent {cfg : Settings} {f : Feed} {tag : Text}
    (h : ("If-None-Match".toList, tag) ∈ requestHeaders cfg f) : f.etag = some tag := by
  have hagent : "If-None-Match".toList ≠ "User-Agent".toList := by decide
  have hsince : "If-None-Match".toList ≠ "If-Modified-Since".toList := by decide
  rw [requestHeaders_eq, conditionalHeaders] at h
  rcases List.mem_cons.mp h with heq | h
  · exact absurd (congrArg Prod.fst heq) hagent
  · split at h
    · rename_i hsome
      have heq := congrArg Prod.snd (List.mem_singleton.mp h)
      cases hetag : f.etag with
      | none =>
          rw [hetag] at hsome
          cases hsome
      | some tag' =>
          rw [hetag] at heq
          exact congrArg some heq.symm
    · split at h
      · exact absurd (congrArg Prod.fst (List.mem_singleton.mp h)) hsince
      · cases h

/-! ## Steps -/

/-- Every document that a fetch of the feed reads carries an ETag, which names its entries. -/
def ServiceAction.Tagged (cfg : Settings) (doc : Text → List ParsedEntry) (feedId : Int) :
    ServiceAction → Prop
  | .commit _ c up session domains => c.feedId = feedId → ∀ row headers body, c.loaded = some row →
    answerOf up cfg c.now (FeedgateFetcher.load up (Tracked.loaded session domains ⟨row, []⟩)).2 =
      some (.document headers body) →
    ∃ tag, headers.get "etag".toList = some tag ∧
      ∀ parsed, parseFeed up.feedparser body = .ok parsed → parsed.entries = doc tag
  | _ => True

/-- No fetch of the feed is committed when another ETag has been stored since it loaded the row. -/
def ServiceAction.Current (feedId : Int) (table : List Feed) : ServiceAction → Prop
  | .commit _ c _ _ _ => c.feedId = feedId → ∀ row, c.loaded = some row →
    ∀ f ∈ table, f.id = feedId → f.etag = row.etag
  | _ => True

/-- The retention job runs. -/
def ServiceAction.isSweep : ServiceAction → Bool
  | .sweep _ _ _ _ => true
  | _ => false

namespace Service

variable {cfg : Settings} {retention : RetentionSettings} {s s' t : Service} {a : ServiceAction}
  {doc : Text → List ParsedEntry} {feedId : Int} {Q : Text → Service → Prop}

/-- The ETag of the feed is one of which `Q` holds. -/
def Vouches (Q : Text → Service → Prop) (feedId : Int) (s : Service) : Prop :=
  ∀ f ∈ s.cluster.table, f.id = feedId → ∀ tag, f.etag = some tag → Q tag s

/-- It stays so when the feed gets no other ETag. -/
theorem Vouches.mono (h : s.Vouches Q feedId)
    (htable : ∀ g ∈ s'.cluster.table, g.id = feedId →
      g.etag = none ∨ ∃ f ∈ s.cluster.table, f.id = feedId ∧ g.etag = f.etag)
    (hQ : (∃ g ∈ s'.cluster.table, g.id = feedId) → ∀ tag, Q tag s → Q tag s') :
    s'.Vouches Q feedId := by
  intro g hg hid tag htag
  rcases htable g hg hid with hnone | ⟨f, hf, hfid, hetag⟩
  · cases hnone.symm.trans htag
  · exact hQ ⟨g, hg, hid⟩ tag (h f hf hfid tag (hetag.symm.trans htag))

/-- The commit of a fetch of another feed. -/
theorem Vouches.commit_other (h : s.Vouches Q feedId) (hsound : s.Sound) {now : Datetime}
    {c : Claim} {up : Upstream} {session : Session} {domains : List Text}
    (hs : s.Step cfg retention (.commit now c up session domains) s') (hne : c.feedId ≠ feedId)
    (hsame : s'.entriesOf feedId = s.entriesOf feedId → ∀ tag, Q tag s → Q tag s') :
    s'.Vouches Q feedId := by
  cases hs with
  | @commit _ _ row _ _ _ cluster hstep hrow hdurable hfeed =>
      cases hstep with
      | finish _ hc _ htable _ _ =>
          have hid : row.id = c.feedId := hsound.loaded c hc row hrow
          refine h.mono (fun g hg hgid ↦ ?_) fun _ ↦ hsame ?_
          · rcases Cluster.mem_settle (htable ▸ hg) with hg | ⟨-, f, -, hfid, rfl⟩
            · exact .inr ⟨g, hg, hgid, rfl⟩
            · exact absurd (hfid.symm.trans hgid) hne
          · exact ofFeed_upsertAll_of_ne (fun heq ↦ hne (hid.symm.trans heq.symm)) c.now up.dbNow _
              (.start s.entries s.nextEntryId)

/-- The row of a feed that has still the ETag with which it was loaded gets the one of the
fetch. -/
theorem etag_of_settle {c : Claim} {up : Upstream} {session : Session} {domains : List Text}
    {row : Feed} {table : List Feed} {g : Feed}
    (hdurable : isDurable (c.run cfg up session domains row) = true)
    (hcurrent : ∀ f ∈ table, f.id = c.feedId → f.etag = row.etag)
    (hg : g ∈ c.settle cfg up session domains row table) (hid : g.id = c.feedId) :
    (∃ f ∈ table, f.id = c.feedId ∧ f.etag = row.etag) ∧
      g.etag = (c.run cfg up session domains row).2.feed.etag := by
  rw [show c.settle cfg up session domains row table = _ from if_pos hdurable] at hg
  obtain ⟨f, hf, rfl⟩ := List.mem_map.mp hg
  have hfid : f.id = c.feedId := by
    split at hid
    · exact hid
    · exact hid
  have hetag := hcurrent f hf hfid
  refine ⟨⟨f, hf, hfid, hetag⟩, ?_⟩
  rw [if_pos hfid]
  show (if _ = _ then _ else _) = _
  rw [hetag]
  exact ite_eq_right_iff.mpr Eq.symm

/-- The commit of a fetch of the feed. -/
theorem Vouches.commit (h : s.Vouches Q feedId) (hsound : s.Sound) {now : Datetime}
    {c : Claim} {up : Upstream} {session : Session} {domains : List Text}
    (hs : s.Step cfg retention (.commit now c up session domains) s') (hfeed : c.feedId = feedId)
    (htagged : (ServiceAction.commit now c up session domains).Tagged cfg doc feedId)
    (hcurrent : (ServiceAction.commit now c up session domains).Current feedId s.cluster.table)
    (hsame : s'.entriesOf feedId = s.entriesOf feedId → ∀ tag, Q tag s → Q tag s')
    (hstored : ∀ tag hasEntries dbNow, s'.entries =
      (Session.upsertAll feedId c.now dbNow (capEntries cfg hasEntries (doc tag))
        (.start s.entries s.nextEntryId)).entries → Q tag s') : s'.Vouches Q feedId := by
  cases hs with
  | @commit _ _ row _ _ _ cluster hstep hrow hdurable _ =>
      cases hstep with
      | @finish _ _ loaded _ _ _ _ _ hc hloaded htable _ _ =>
          obtain rfl : loaded = row := Option.some.inj (hloaded.symm.trans hrow)
          have hid : loaded.id = c.feedId := hsound.loaded c hc loaded hrow
          have hetag : ∀ g ∈ cluster.table, g.id = feedId →
              (∃ f ∈ s.cluster.table, f.id = feedId ∧ f.etag = loaded.etag) ∧
                g.etag = (c.run cfg up session domains loaded).2.feed.etag := by
            intro g hg hgid
            subst hfeed
            exact etag_of_settle hdurable (hcurrent rfl loaded hrow) (htable ▸ hg) hgid
          rcases document_cases hdurable with ⟨hbatch, hkept⟩ |
            ⟨headers, body, parsed, hasEntries, hanswer, hparsed, hbatch, hnew⟩
          -- nothing is stored, and the ETag stays
          · refine h.mono (fun g hg hgid ↦ ?_) fun _ ↦ hsame (congrArg (List.filter _) ?_)
            · obtain ⟨⟨f, hf, hfid, hfetag⟩, hgetag⟩ := hetag g hg hgid
              exact .inr ⟨f, hf, hfid, hgetag.trans (hkept.trans hfetag.symm)⟩
            · rw [stored, hbatch, Session.upsertAll_nil]
              rfl
          -- a document is stored, and its ETag with it
          · obtain ⟨tag, htag, hentries⟩ := htagged hfeed loaded headers body hrow hanswer
            intro g hg hgid tag' htag'
            rw [htag] at hnew
            obtain rfl : tag = tag' :=
              Option.some.inj (hnew.symm.trans ((hetag g hg hgid).2.symm.trans htag'))
            refine hstored tag hasEntries up.dbNow ?_
            rw [stored, hbatch, hentries parsed hparsed, hid, hfeed]

/-- A step under these conditions. -/
def TaggedStep (cfg : Settings) (retention : RetentionSettings) (doc : Text → List ParsedEntry)
    (feedId : Int) (s : Service) (a : ServiceAction) (s' : Service) : Prop :=
  s.Step cfg retention a s' ∧ a.Tagged cfg doc feedId ∧ a.Current feedId s.cluster.table

theorem Vouches.step (h : s.Vouches Q feedId) (hsound : s.Sound)
    (hs : s.TaggedStep cfg retention doc feedId a s')
    (hother : a.isCommit = false → (∃ g ∈ s'.cluster.table, g.id = feedId) →
      ∀ tag, Q tag s → Q tag s')
    (hsame : s'.entriesOf feedId = s.entriesOf feedId → ∀ tag, Q tag s → Q tag s')
    (hstored : ∀ tag hasEntries now dbNow, s'.entries =
      (Session.upsertAll feedId now dbNow (capEntries cfg hasEntries (doc tag))
        (.start s.entries s.nextEntryId)).entries → Q tag s') : s'.Vouches Q feedId := by
  obtain ⟨hstep, htagged, hcurrent⟩ := hs
  cases ha : a.isCommit with
  | true =>
      cases a with
      | commit now c up session domains =>
          by_cases hfeed : c.feedId = feedId
          · exact h.commit hsound hstep hfeed htagged hcurrent hsame
              fun tag hasEntries ↦ hstored tag hasEntries c.now
          · exact h.commit_other hsound hstep hfeed hsame
      | _ => cases ha
  | false =>
      refine h.mono (fun g hg hgid ↦ ?_) (hother ha)
      rcases hstep.column (p := Feed.etag) (fun _ _ _ ↦ rfl) (fun _ _ _ h ↦ if_pos h)
        reactivateFeed_etag ha hg with ⟨f, hf, hfid, hetag⟩ | ⟨_, _, _, rfl⟩
      · exact .inr ⟨f, hf, hfid.trans hgid, hetag⟩
      · exact .inl rfl

/-- A feed that is still there keeps its entries unless a fetch or a sweep has changed them. -/
theorem Step.entriesOf_eq (hs : s.Step cfg retention a s') (hcommit : a.isCommit = false)
    (hsweep : a.isSweep = false) (hfeed : ∃ g ∈ s'.cluster.table, g.id = feedId) :
    s'.entriesOf feedId = s.entriesOf feedId := by
  cases hs with
  | commit _ _ _ _ => cases hcommit
  | sweep _ _ => cases hsweep
  | @remove removed _ =>
      obtain ⟨g, hg, rfl⟩ := hfeed
      have hne : g.id ≠ removed := of_decide_eq_true (List.mem_filter.mp hg).2
      refine (List.filter_filter).trans (List.filter_congr fun e _ ↦ ?_)
      by_cases he : e.feedId = g.id
      · simp [he, hne]
      · simp [he]
  | work _ _ => rfl
  | register _ => rfl
  | load _ => rfl
  | reactivate _ _ _ => rfl
  | beginSweep => rfl
  | rollback _ _ => rfl

/-- Nothing but a fetch adds to the entries. -/
theorem Step.entries_subset (hs : s.Step cfg retention a s') (hcommit : a.isCommit = false) :
    s'.entries ⊆ s.entries := by
  cases hs with
  | commit _ _ _ _ => cases hcommit
  | remove _ => exact List.filter_subset_self _
  | sweep _ _ => exact List.filter_subset_self _
  | work _ _ => exact List.Subset.refl _
  | register _ => exact List.Subset.refl _
  | load _ => exact List.Subset.refl _
  | reactivate _ _ _ => exact List.Subset.refl _
  | beginSweep => exact List.Subset.refl _
  | rollback _ _ => exact List.Subset.refl _

/-! ## Runs -/

/-- It depends on the entries of the feed. -/
theorem Tells.mono {p : ParsedEntry} (h : s.Tells p feedId)
    (hsub : s'.entriesOf feedId ⊆ s.entriesOf feedId) : s'.Tells p feedId := by
  intro e he hkey
  have hmem : e ∈ s'.entriesOf feedId :=
    List.mem_filter.mpr ⟨he, decide_eq_true (congrArg Prod.fst hkey)⟩
  exact h e (List.mem_filter.mp (hsub hmem)).1 hkey

/-- What is stored of a document is as the document tells it. -/
theorem tells_of_mirrors {ps : List ParsedEntry} (hsound : s.Sound)
    (h : Mirrors feedId ps (s.entriesOf feedId)) : ∀ p ∈ ps, s.Tells p feedId := by
  intro p hp e he hkey
  obtain ⟨f, hf, hfkey, hcarries⟩ := mirrors_entriesOf_iff.mp h p hp
  obtain rfl : e = f := hsound.guids.eq_of_key he hf (hkey.trans hfkey.symm)
  exact hcarries

/-- A fetch of a document stores what a first fetch of it does. -/
theorem mirrors_of_stored {tag : Text} {hasEntries : Bool} {now dbNow : Datetime}
    (hdoc : ((doc tag).map ParsedEntry.guid).Nodup)
    (h : s'.entries = (Session.upsertAll feedId now dbNow (capEntries cfg hasEntries (doc tag))
      (.start s.entries s.nextEntryId)).entries) :
    Mirrors feedId (capEntries cfg false (doc tag)) (s'.entriesOf feedId) := by
  rw [mirrors_entriesOf_iff, h]
  have hall := mirrors_upsertAll (nodup_capEntries hdoc cfg hasEntries) feedId now dbNow
    (.start s.entries s.nextEntryId)
  cases hasEntries with
  | false => exact hall
  | true => exact hall.mono (capEntries_subset cfg false (doc tag))

/-- What is stored under the guids of the document of the ETag is as the document tells it, up to
the cap of a first fetch. -/
def Told (cfg : Settings) (doc : Text → List ParsedEntry) (feedId : Int) (tag : Text)
    (s : Service) : Prop := ∀ p ∈ capEntries cfg false (doc tag), s.Tells p feedId

/-- The document of the ETag is stored, up to the cap of a first fetch. -/
def Holds (cfg : Settings) (doc : Text → List ParsedEntry) (feedId : Int) (tag : Text)
    (s : Service) : Prop := Mirrors feedId (capEntries cfg false (doc tag)) (s.entriesOf feedId)

theorem TaggedStep.told (hs : s.TaggedStep cfg retention doc feedId a s') (hsound : s.Sound)
    (hdoc : ∀ tag, ((doc tag).map ParsedEntry.guid).Nodup)
    (h : s.Vouches (Told cfg doc feedId) feedId) : s'.Vouches (Told cfg doc feedId) feedId := by
  refine h.step hsound hs (fun hcommit _ tag htold p hp ↦ ?_) (fun hsame tag htold p hp ↦ ?_)
    fun tag hasEntries now dbNow hstored ↦ ?_
  · exact (htold p hp).mono (List.filter_subset _ (hs.1.entries_subset hcommit))
  · exact (htold p hp).mono fun _ he ↦ hsame ▸ he
  · exact tells_of_mirrors (hsound.step hs.1) (mirrors_of_stored (hdoc tag) hstored)

theorem TaggedStep.holds (hs : s.TaggedStep cfg retention doc feedId a s') (hsound : s.Sound)
    (hdoc : ∀ tag, ((doc tag).map ParsedEntry.guid).Nodup) (hsweep : a.isSweep = false)
    (h : s.Vouches (Holds cfg doc feedId) feedId) : s'.Vouches (Holds cfg doc feedId) feedId := by
  refine h.step hsound hs (fun hcommit hfeed tag hmirrors ↦ ?_) (fun hsame tag hmirrors ↦ ?_)
    fun tag hasEntries now dbNow hstored ↦ mirrors_of_stored (hdoc tag) hstored
  · unfold Holds
    rw [hs.1.entriesOf_eq hcommit hsweep hfeed]
    exact hmirrors
  · unfold Holds
    rw [hsame]
    exact hmirrors

/-- As long as an ETag comes with every document of a feed and names its entries, and no fetch of
the feed is committed over an ETag that has been stored since it began, the ETag with which the
feed is asked for names what is stored of it.  Only a sweep takes some of it away. -/
theorem vouched (h : s.Sound) (hdoc : ∀ tag, ((doc tag).map ParsedEntry.guid).Nodup)
    (hnone : ∀ f ∈ s.cluster.table, f.id = feedId → f.etag = none) {as : List ServiceAction}
    (hr : Run (TaggedStep cfg retention doc feedId) s as t) :
    ∀ f ∈ t.cluster.table, f.id = feedId →
      ∀ tag, ("If-None-Match".toList, tag) ∈ requestHeaders cfg f →
        t.Told cfg doc feedId tag ∧
        ((∀ a ∈ as, a.isSweep = false) → t.Holds cfg doc feedId tag) := by
  have hstart : ∀ Q, s.Vouches Q feedId := by
    intro Q f hf hid tag htag
    cases (hnone f hf hid).symm.trans htag
  have hrun : t.Sound ∧ t.Vouches (Told cfg doc feedId) feedId ∧
      ((∀ a ∈ as, a.isSweep = false) → t.Vouches (Holds cfg doc feedId) feedId) := by
    induction hr with
    | nil => exact ⟨h, hstart _, fun _ ↦ hstart _⟩
    | @snoc as t u a _ hs ih =>
        obtain ⟨hsound, htold, hholds⟩ := ih
        refine ⟨hsound.step hs.1, hs.told hsound hdoc htold, fun hsweep ↦ ?_⟩
        have hlast := hsweep a (List.mem_append_right _ List.mem_cons_self)
        exact hs.holds hsound hdoc hlast
          (hholds fun b hb ↦ hsweep b (List.mem_append_left _ hb))
  obtain ⟨-, htold, hholds⟩ := hrun
  intro f hf hid tag hsent
  have hetag := etag_of_sent hsent
  exact ⟨htold f hf hid tag hetag, fun hsweep ↦ hholds hsweep f hf hid tag hetag⟩

open Cluster (fresh leased firstClaim)

/-- The surroundings in which every answer carries the document of one entry under an ETag. -/
def tagging : Upstream :=
  .delivering 200 [("etag".toList, "v1".toList)] { entries := [{ id := some "post".toList }] }

/-- The first worker commits that document. -/
def firstTagged : ServiceAction :=
  .commit .year2000 (firstClaim (some (leased (fresh 1)))) tagging (.start [] 1) []

theorem tended_vouched : ∃ t, tended.Step {} {} firstTagged t ∧
    (∃ f ∈ t.cluster.table, f.id = 1 ∧
      ("If-None-Match".toList, "v1".toList) ∈ requestHeaders {} f) ∧
    Mirrors 1 [published] (t.entriesOf 1) := by
  have hdurable : isDurable ((firstClaim (some (leased (fresh 1)))).run {} tagging
      (.start [] 1) [] (leased (fresh 1))) = true := by decide +kernel
  obtain ⟨t, ht, htable⟩ := tended_sound.commit_enabled (List.mem_singleton.mpr rfl) rfl hdurable
    ⟨_, List.mem_singleton.mpr rfl, rfl⟩
  have htagged : firstTagged.Tagged {} (fun _ ↦ [published]) 1 := by
    intro _ row headers body hrow hanswer
    cases hrow
    have hdocument : answerOf tagging {} .year2000 (FeedgateFetcher.load tagging
        (Tracked.loaded (.start [] 1) [] ⟨leased (fresh 1), []⟩)).2 =
        some (.document [("etag".toList, "v1".toList)] feedDocument) := by decide +kernel
    obtain ⟨rfl, -⟩ := Exchange.document.inj (Option.some.inj (hdocument.symm.trans hanswer))
    exact ⟨"v1".toList, by decide +kernel, fun _ ↦ publishing_parsed⟩
  have hcurrent : firstTagged.Current 1 tended.cluster.table := by
    intro _ row hrow f hf _
    cases hrow
    rw [List.mem_singleton.mp hf]
  have hnone : ∀ f ∈ tended.cluster.table, f.id = 1 → f.etag = none := by
    intro f hf _
    rw [List.mem_singleton.mp hf]
    rfl
  have hsent : ∃ f ∈ t.cluster.table, f.id = 1 ∧
      ("If-None-Match".toList, "v1".toList) ∈ requestHeaders {} f := by
    rw [htable]
    decide +kernel
  refine ⟨t, ht, hsent, ?_⟩
  obtain ⟨f, hf, hid, hsent⟩ := hsent
  have hvouched := vouched tended_sound (fun _ ↦ by decide) hnone
    (Run.single ⟨ht, htagged, hcurrent⟩) f hf hid _ hsent
  refine hvouched.2 fun a ha ↦ ?_
  rw [List.mem_singleton.mp ha]
  rfl

end Service

end FeedgateFetcher
