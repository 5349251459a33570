import FeedgateFetcher.Churn
import FeedgateFetcher.EntryBrowsing

/-!
# From a document to a page

What becomes of an entry that a fetch has stored.  As long as no later document of the feed tells
it otherwise, and no sweep gives it up, every walk through the pages of the feed shows it once, as
it was published.
-/

namespace FeedgateFetcher

open Python Logic Table

/-- No document that is read for the feed has another entry under the guid of `p`. -/
def ServiceAction.Upholds (p : ParsedEntry) (feedId : Int) : ServiceAction → Prop
  | .commit _ c up _ _ => c.feedId = feedId → ∀ body parsed,
    parseFeed up.feedparser body = .ok parsed → ∀ q ∈ parsed.entries, q.guid = p.guid → q = p
  | _ => True

/-- When every request of a walk finds one row under the key of `e`, a later state of `e` in the
same place, the walk shows one row under this key, as one of its requests has found it. -/
theorem Wire.EntryWalk.shows_row {api : EntriesSettings} {depth : Nat} {send : Wire.Binding}
    {feedIds : Text} {ids : List Int} {reqs : List Wire.EntriesRequest} {pages : List (List Entry)}
    {e : Entry} {P : Entry → Prop} (h : Wire.EntryWalk api depth send feedIds none reqs pages none)
    (hsend : Wire.Faithful send) (hids : parseFeedIds feedIds = .ok ids) (hmem : e.feedId ∈ ids)
    (hlimit : ∀ req ∈ reqs, 1 ≤ req.limit.getD api.apiEntriesDefaultLimit)
    (hrow : ∀ req ∈ reqs, ∃ f ∈ req.table, e.Continues f ∧ f.publishedAt = e.publishedAt ∧ P f ∧
      ∀ g ∈ req.table, g.key = e.key → g = f) :
    ∃ f, e.Continues f ∧ P f ∧ (pages.flatten.filter fun g ↦ g.key = e.key) = [f] := by
  have hstays : ∀ req ∈ reqs, Stays e req.table := by
    intro req hreq
    obtain ⟨f, hf, hcontinues, hpublished, -⟩ := hrow req hreq
    exact ⟨f, hf, congrArg Prod.fst hcontinues.key, hpublished, hcontinues.id⟩
  have hshown : ∀ g ∈ pages.flatten, (g.key = e.key ↔ g.id = e.id) ∧
      (g.id = e.id → e.Continues g ∧ P g) := by
    intro g hg
    obtain ⟨req, hreq, hmem, -⟩ := Wire.exists_request (h.shown hsend hids) hg
    obtain ⟨f, hf, hcontinues, -, hP, honly⟩ := hrow req hreq
    have heq : g.id = e.id → g = f := fun hgid ↦
      req.keyed.eq_of_key hmem hf (hgid.trans hcontinues.id.symm)
    refine ⟨⟨fun hgkey ↦ ?_, fun hgid ↦ ?_⟩, fun hgid ↦ ?_⟩
    · rw [honly g hmem hgkey]
      exact hcontinues.id
    · rw [heq hgid]
      exact hcontinues.key
    · rw [heq hgid]
      exact ⟨hcontinues, hP⟩
  have hfilter : (pages.flatten.filter fun g ↦ g.key = e.key) =
      pages.flatten.filter fun g ↦ g.id = e.id :=
    List.filter_congr fun g hg ↦ decide_eq_decide.mpr (hshown g hg).1
  have honce := h.shown_once hsend hids hlimit hmem hstays
  obtain ⟨f, hf⟩ := List.length_eq_one_iff.mp (List.countP_eq_length_filter.symm.trans honce)
  have hfshown : f ∈ pages.flatten.filter fun g ↦ g.id = e.id := hf ▸ List.mem_singleton.mpr rfl
  obtain ⟨hfmem, hfid⟩ := List.mem_filter.mp hfshown
  obtain ⟨hcontinues, hP⟩ := (hshown f hfmem).2 (of_decide_eq_true hfid)
  exact ⟨f, hcontinues, hP, hfilter.trans hf⟩

namespace Service

variable {cfg : Settings} {retention : RetentionSettings} {s s' t : Service} {a : ServiceAction}
  {p : ParsedEntry} {feedId : Int} {e : Entry}

/-- What is stored under the guid of `p` is as `p` has it. -/
def Tells (p : ParsedEntry) (feedId : Int) (s : Service) : Prop :=
  ∀ e ∈ s.entries, e.key = (feedId, p.guid) → e.Carries p

/-- A commit that upholds `p` leaves the row of its guid alone, or makes it carry `p`. -/
theorem stored_carries {now : Datetime} {c : Claim} {row : Feed} {up : Upstream}
    {session : Session} {domains : List Text} (hid : row.id = c.feedId)
    (hup : (ServiceAction.commit now c up session domains).Upholds p feedId)
    (he : e ∈ (s.stored cfg c up session domains row).entries) (hkey : e.key = (feedId, p.guid)) :
    (e ∈ s.entries ∧ (c.feedId = feedId →
      p ∉ processedBatch up cfg c.now (Tracked.loaded session domains ⟨row, []⟩))) ∨
      e.Carries p := by
  rw [stored, hid] at he
  refine carries_of_upsertAll (fun hfeed q hq hguid ↦ ?_) he hkey
  obtain ⟨body, parsed, hparsed, hmem⟩ := exists_parsed hq
  exact hup hfeed body parsed hparsed q hmem hguid

theorem Step.tells (hs : s.Step cfg retention a s') (h : s.Sound) (hup : a.Upholds p feedId)
    (htells : s.Tells p feedId) : s'.Tells p feedId := by
  cases hs with
  | @commit now c row up session domains cluster hstep hrow _ _ =>
      have hc : c ∈ s.cluster.held := by
        cases hstep with
        | finish _ hc _ _ _ _ => exact hc
      intro e he hkey
      rcases stored_carries (h.loaded c hc row hrow) hup he hkey with ⟨hbefore, -⟩ | hcarries
      · exact htells e hbefore hkey
      · exact hcarries
  | remove _ => exact fun e he ↦ htells e (List.mem_of_mem_filter he)
  | sweep _ _ => exact fun e he ↦ htells e (List.mem_of_mem_filter he)
  | work _ _ => exact htells
  | register _ => exact htells
  | load _ => exact htells
  | reactivate _ _ _ => exact htells
  | beginSweep => exact htells
  | rollback _ _ => exact htells

/-- A fetch that stores `p` leaves a row of it, and none that differs from it. -/
theorem Step.told {now : Datetime} {c : Claim} {row : Feed} {up : Upstream} {session : Session}
    {domains : List Text} (hs : s.Step cfg retention (.commit now c up session domains) t)
    (h : s.Sound) (hrow : c.loaded = some row)
    (hp : p ∈ processedBatch up cfg c.now (Tracked.loaded session domains ⟨row, []⟩))
    (hup : (ServiceAction.commit now c up session domains).Upholds p c.feedId) :
    t.Tells p c.feedId ∧ ∃ e ∈ t.entries, e.key = (c.feedId, p.guid) := by
  cases hs with
  | @commit _ _ row' _ _ _ cluster hstep hrow' _ _ =>
      obtain rfl : row = row' := Option.some.inj (hrow.symm.trans hrow')
      have hc : c ∈ s.cluster.held := by
        cases hstep with
        | finish _ hc _ _ _ _ => exact hc
      have hid := h.loaded c hc row hrow
      constructor
      · intro e he hkey
        rcases stored_carries hid hup he hkey with ⟨-, hout⟩ | hcarries
        · exact absurd hp (hout rfl)
        · exact hcarries
      · rw [← hid]
        exact (upsertAll_law row.id c.now up.dbNow _ (.start s.entries s.nextEntryId)).stored p hp

/-- A step that upholds `p` and spares the row `e` of it. -/
def UpholdingStep (cfg : Settings) (retention : RetentionSettings) (p : ParsedEntry) (e : Entry)
    (s : Service) (a : ServiceAction) (s' : Service) : Prop :=
  s.SparingStep cfg retention e a s' ∧ a.Upholds p e.feedId

/-- Later on, the row is there and carries `p`, and it is the only one of its guid. -/
theorem upheld {as : List ServiceAction} (hN : 0 ≤ retention.retentionMinPerFeed) (h : t.Sound)
    (htells : t.Tells p e.feedId) (he : e ∈ t.entries) (hkey : e.key = (e.feedId, p.guid))
    (hr : Run (UpholdingStep cfg retention p e) t as s) :
    ∃ f ∈ s.entries, e.Continues f ∧ f.Carries p ∧ ∀ g ∈ s.entries, g.key = e.key → g = f := by
  have hinv : s.Sound ∧ s.Tells p e.feedId ∧ ∃ f ∈ s.entries, e.Continues f := by
    induction hr with
    | nil => exact ⟨h, htells, e, he, .refl e⟩
    | snoc _ hs ih =>
        obtain ⟨hsound, htells, f, hf, hcontinues⟩ := ih
        exact ⟨hsound.step hs.1.1, hs.1.1.tells hsound hs.2 htells,
          hs.1.spares hN hsound hf hcontinues⟩
  obtain ⟨hsound, htells, f, hf, hcontinues⟩ := hinv
  refine ⟨f, hf, hcontinues, htells f hf (hcontinues.key.trans hkey), fun g hg hgkey ↦ ?_⟩
  exact hsound.guids.eq_of_key hg hf (hgkey.trans hcontinues.key.symm)

/-- An entry that a fetch has stored is delivered: every walk through all pages of the feed, with
any limits, whose requests meet the table at instants after the commit, shows one entry under its
guid, and this one as it was published. -/
theorem delivered {now : Datetime} {c : Claim} {row : Feed} {up : Upstream} {session : Session}
    {domains : List Text} (hN : 0 ≤ retention.retentionMinPerFeed) (h : s.Sound)
    (hs : s.Step cfg retention (.commit now c up session domains) t) (hrow : c.loaded = some row)
    (hp : p ∈ processedBatch up cfg c.now (Tracked.loaded session domains ⟨row, []⟩))
    (hup : (ServiceAction.commit now c up session domains).Upholds p c.feedId) :
    ∃ e ∈ t.entries, e.key = (c.feedId, p.guid) ∧
      ∀ (api : EntriesSettings) (depth : Nat) (send : Wire.Binding) (feedIds : Text)
        (ids : List Int) (reqs : List Wire.EntriesRequest) (pages : List (List Entry)),
        Wire.Faithful send → parseFeedIds feedIds = .ok ids → c.feedId ∈ ids →
        (∀ req ∈ reqs, 1 ≤ req.limit.getD api.apiEntriesDefaultLimit) →
        (∀ req ∈ reqs, ∃ as s', Run (UpholdingStep cfg retention p e) t as s' ∧
          req.table = s'.entries) →
        Wire.EntryWalk api depth send feedIds none reqs pages none →
        ∃ f, e.Continues f ∧ f.Carries p ∧
          (pages.flatten.filter fun g ↦ g.key = (c.feedId, p.guid)) = [f] := by
  have hsound : t.Sound := h.step hs
  obtain ⟨htells, e, he, hkey⟩ := hs.told h hrow hp hup
  have hfeed : e.feedId = c.feedId := congrArg Prod.fst hkey
  refine ⟨e, he, hkey, ?_⟩
  intro api depth send feedIds ids reqs pages hsend hids hmem hlimit hreqs hwalk
  rw [← hfeed] at htells hmem
  rw [← hkey]
  refine hwalk.shows_row hsend hids hmem hlimit fun req hreq ↦ ?_
  obtain ⟨as, s', hrun, htable⟩ := hreqs req hreq
  have hkey' : e.key = (e.feedId, p.guid) := hkey.trans (congrArg (·, p.guid) hfeed.symm)
  obtain ⟨f, hf, hcontinues, hcarries, honly⟩ := upheld hN hsound htells he hkey' hrun
  have hpublished : f.publishedAt = e.publishedAt :=
    hcarries.publishedAt.trans (htells e he hkey').publishedAt.symm
  exact ⟨f, htable ▸ hf, hcontinues, hpublished, hcarries, htable ▸ honly⟩

open Cluster (fresh leased firstClaim)

/-- A request for the pages of the first feed after the document of one entry has been stored. -/
def laterRequest : Wire.EntriesRequest :=
  ⟨none, publishedEntries, by decide +kernel, by decide +kernel⟩

theorem published_delivered : ∃ t, tended.Step {} {} firstPublished.1 t ∧
    ∃ e ∈ t.entries, e.key = (1, published.guid) ∧ ∃ f, e.Continues f ∧ f.Carries published ∧
      ([publishedEntries.reverse].flatten.filter fun g ↦ g.key = (1, published.guid)) = [f] := by
  obtain ⟨t, ht, hentries⟩ := tended_published
  have hstored : published ∈ processedBatch publishing {} .year2000
      (Tracked.loaded (.start [] 1) [] ⟨leased (fresh 1), []⟩) := by decide +kernel
  have hupholds : firstPublished.1.Upholds published 1 := by
    intro _ body parsed hparsed q hq _
    rw [publishing_parsed hparsed] at hq
    exact List.mem_singleton.mp hq
  obtain ⟨e, he, hkey, hshown⟩ :=
    delivered (by decide) tended_sound ht rfl hstored hupholds
  have hwalk : Wire.EntryWalk {} 1 Wire.sendInstant "1".toList none [laterRequest]
      [publishedEntries.reverse] none := .single (by decide +kernel)
  refine ⟨t, ht, e, he, hkey, hshown {} 1 Wire.sendInstant "1".toList [1] [laterRequest] _
    Wire.sendInstant_faithful (by decide) (by decide) (by decide) ?_ hwalk⟩
  intro req hreq
  rw [List.mem_singleton.mp hreq]
  exact ⟨[], t, .nil, hentries.symm⟩

end Service

end FeedgateFetcher
