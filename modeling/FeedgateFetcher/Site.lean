import FeedgateFetcher.Api.Server
import FeedgateFetcher.EntryBrowsing
import FeedgateFetcher.Service

/-!
# The site

The service with its clients: requests are served one after the other, each with its commit, and
the workers, the sweeps and rolled back transactions come between them in any order.  A request
does to the tables what the transactions of the service do, so all that holds of the runs of the
service holds here, and the responses are about these tables.
-/

namespace FeedgateFetcher

open Python Logic Table

inductive SiteEvent where
  /-- A step of the service that no client asks for. -/
  | background (a : ServiceAction)
  | request (req : HttpRequest) (reply : Reply)

/-- The action is that of a worker, of the sweep, or a rollback. -/
def ServiceAction.isBackground : ServiceAction → Bool
  | .work _ => true
  | .commit _ _ _ _ _ => true
  | .beginSweep => true
  | .sweep _ _ _ _ => true
  | .rollback => true
  | _ => false

namespace Service

def database (s : Service) : Database :=
  ⟨s.cluster.table, s.nextFeedId, s.entries, s.nextEntryId⟩

/-- The tables have changed, and what the workers hold has not. -/
structure Stored (s : Service) (db : Database) (t : Service) : Prop where
  database : t.database = db
  held : t.cluster.held = s.cluster.held
  clock : t.cluster.clock = s.cluster.clock
  reactivating : t.reactivating = s.reactivating
  sweeping : t.sweeping = s.sweeping

theorem Stored.eq {s t u : Service} {db : Database} (h : s.Stored db t) (h' : s.Stored db u) :
    t = u := by
  obtain ⟨⟨table, keys, held, clock⟩, nextFeedId, entries, nextEntryId, reactivating, sweeping⟩ := t
  obtain ⟨⟨table', keys', held', clock'⟩, nextFeedId', entries', nextEntryId', reactivating',
    sweeping'⟩ := u
  cases h.database.trans h'.database.symm
  cases h.held.trans h'.held.symm
  cases h.clock.trans h'.clock.symm
  cases h.reactivating.trans h'.reactivating.symm
  cases h.sweeping.trans h'.sweeping.symm
  rfl

theorem Stored.refl (s : Service) : s.Stored s.database s := ⟨rfl, rfl, rfl, rfl, rfl⟩

/-- One step of the service, or one request. -/
inductive SiteStep (cfg : Settings) (retention : RetentionSettings) (app : AppState) (s : Service) :
    SiteEvent → Service → Prop
  | background {a : ServiceAction} {t : Service} (hstep : s.Step cfg retention a t)
    (ha : a.isBackground = true) : SiteStep cfg retention app s (.background a) t
  | request {req : HttpRequest} {t : Service} (hstored : s.Stored (serve app req s.database).2 t) :
    SiteStep cfg retention app s (.request req (serve app req s.database).1) t

/-- A server with a key. -/
def guarded : AppState := { apiKey := "secret".toList }

/-- A request for this call, with a key. -/
def keyed (apiKey : String) (call : Call) : HttpRequest where
  path := "/v1/feeds".toList
  apiKey := some apiKey.toList
  routed := .api (.ok call)
  now := .year2000
  dbNow := .year2000
  send := Wire.sendInstant

end Service

/-! ## Clients without the key -/

/-- A request without the key. -/
def SiteEvent.isOutside (app : AppState) : SiteEvent → Bool
  | .background _ => false
  | .request req _ => req.apiKey ≠ some app.apiKey

namespace Service

variable {cfg : Settings} {retention : RetentionSettings} {app : AppState} {s t : Service}
  {e : SiteEvent} {es : List SiteEvent}

/-- Whoever has not the key neither changes anything nor learns anything: a run goes the same way
without these requests, and their responses would be the same on any tables and with any
metrics. -/
theorem outsiders_shut_out (hkey : app.apiKey ≠ [])
    (h : Run (SiteStep cfg retention app) s es t) :
    Run (SiteStep cfg retention app) s (es.filter fun e ↦ !e.isOutside app) t ∧
    ∀ req reply, SiteEvent.request req reply ∈ es → req.apiKey ≠ some app.apiKey →
      ∀ (db : Database) (exposition : Text),
        serve app { req with exposition := exposition } db = (reply, db) := by
  constructor
  · refine h.filter fun s e t hs he ↦ ?_
    cases hs with
    | background hstep ha => cases he
    | @request req t hstored =>
        have houtside : req.apiKey ≠ some app.apiKey := by simpa [SiteEvent.isOutside] using he
        have hserve := serve_outsider hkey houtside s.database s.database req.exposition
        rw [show (serve app req s.database).2 = s.database from congrArg Prod.snd hserve]
          at hstored
        exact hstored.eq (.refl s)
  · intro req reply hmem houtside db exposition
    refine h.forall_label (P := fun e ↦ ∀ req reply, e = .request req reply →
      req.apiKey ≠ some app.apiKey → serve app { req with exposition := exposition } db =
        (reply, db)) ?_ _ hmem req reply rfl houtside
    intro s e t hs req reply he houtside
    cases hs with
    | background hstep ha => cases he
    | request hstored =>
        cases he
        exact serve_outsider hkey houtside s.database db exposition

/-- A request with another key is turned down, and does not tell that there is no feed. -/
theorem guess_shut_out :
    serve guarded (keyed "guess" (.deleteFeed 1)) blank.database =
      (⟨401, .problem ⟨"Unauthorized".toList, 401, "invalid_api_key".toList,
        "/v1/feeds".toList⟩⟩, blank.database) := by
  have hstep : SiteStep {} {} guarded tended (.request (keyed "guess" (.deleteFeed 1))
      ⟨401, .problem ⟨"Unauthorized".toList, 401, "invalid_api_key".toList,
        "/v1/feeds".toList⟩⟩) tended := .request (.refl tended)
  exact (outsiders_shut_out (by decide) (Run.single hstep)).2 _ _ List.mem_cons_self (by decide)
    blank.database []

end Service

/-! ## Requests as transactions -/

/-- The request is for the deletion of this feed, and its commit succeeds. -/
def SiteEvent.isDeletion (app : AppState) (feedId : Int) : SiteEvent → Bool
  | .background _ => false
  | .request req _ => req.admitted app = some (.deleteFeed feedId) && req.commits

/-- A row whose own columns are written back becomes the row that wrote them. -/
theorem Feed.writeBack_loaded {row mine : Feed} (h : mine.id = row.id) :
    Feed.writeBack row mine row = mine := by
  ext1
  · exact h.symm
  all_goals exact writeBack_current

namespace Service

variable {cfg : Settings} {retention : RetentionSettings} {app : AppState} {s t : Service}
  {e : SiteEvent} {es : List SiteEvent} {feedId : Int}

/-- What a call makes of the tables, the transactions of the service make of them. -/
theorem changes_refines (h : s.Sound) {now dbNow : Datetime} {call : Call} {db : Database}
    (hc : s.database.Changes now dbNow call db) (ht : s.Stored db t) :
    ∃ as, Run (Step cfg retention) s as t ∧
      ∀ feedId, ServiceAction.remove feedId ∈ as → call = .deleteFeed feedId := by
  cases hc with
  | create u =>
      obtain ⟨t', ht'⟩ : ∃ t', s.Step cfg retention (.register u now dbNow) t' :=
        h.register_enabled u now dbNow
      have hstored : s.Stored (s.database.registered u.url now dbNow) t' := by
        cases ht' with
        | register hkeys => exact ⟨rfl, rfl, rfl, rfl, rfl⟩
      exact ⟨_, hstored.eq ht ▸ Run.single ht', by simp⟩
  | @delete f hf =>
      obtain ⟨t', ht'⟩ : ∃ t', s.Step cfg retention (.remove f.id) t' := h.remove_enabled f.id
      have hstored : s.Stored (s.database.removed f.id) t' := by
        cases ht' with
        | remove hkeys => exact ⟨rfl, rfl, rfl, rfl, rfl⟩
      refine ⟨_, hstored.eq ht ▸ Run.single ht', fun feedId hmem ↦ ?_⟩
      cases List.mem_singleton.mp hmem
      rfl
  | @reactivate f hf =>
      let mine := (reactivateFeed now ⟨f, []⟩).feed
      have hid : mine.id = f.id := by
        unfold mine reactivateFeed
        split <;> rfl
      have hload : s.Step cfg retention (.load f) { s with reactivating := f :: s.reactivating } :=
        .load hf
      obtain ⟨t', ht'⟩ : ∃ t', Step cfg retention _ (.reactivate f now) t' :=
        (h.step hload).reactivate_enabled List.mem_cons_self ⟨f, hf, rfl⟩ now
      have htable : writeRow f mine s.cluster.table = (s.database.replaced mine).feeds := by
        refine List.map_congr_left fun g hg ↦ ?_
        rw [hid]
        split
        · rename_i hgid
          rw [h.feedIds.keyed.eq_of_key hg hf hgid]
          exact Feed.writeBack_loaded hid
        · rfl
      have hstored : s.Stored (s.database.replaced mine) t' := by
        cases ht' with
        | reactivate hrow hfeed hkeys =>
            refine ⟨?_, rfl, rfl, List.erase_cons_head f s.reactivating, rfl⟩
            exact Database.ext htable rfl rfl rfl
      refine ⟨_, hstored.eq ht ▸ (Run.single hload).snoc ht', fun feedId hmem ↦ ?_⟩
      simp at hmem
  | nothing call =>
      exact ⟨[], ht.eq (.refl s) ▸ .nil, nofun⟩

/-- A commit that fails has taken an id of the sequence at most. -/
theorem changes_nextFeedId {now dbNow : Datetime} {call : Call} {db db' : Database}
    (hc : db.Changes now dbNow call db') : db.nextFeedId ≤ db'.nextFeedId := by
  cases hc with
  | create u => exact (Int.lt_succ _).le
  | delete hf => exact le_refl _
  | reactivate hf => exact le_refl _
  | nothing call => exact le_refl _

/-- A step of the site is a run of the service, in which a feed is removed only when its deletion
has been asked for. -/
theorem SiteStep.refines (h : s.Sound) (hs : s.SiteStep cfg retention app e t) :
    ∃ as, Run (Step cfg retention) s as t ∧
      ∀ feedId, ServiceAction.remove feedId ∈ as → e.isDeletion app feedId = true := by
  cases hs with
  | @background a t hstep ha =>
      refine ⟨[a], .single hstep, fun feedId hmem ↦ ?_⟩
      cases List.mem_singleton.mp hmem
      cases ha
  | @request req t hstored =>
      cases hcall : req.admitted app with
      | none =>
          rw [serve_of_refused hcall] at hstored
          exact ⟨[], hstored.eq (.refl s) ▸ .nil, nofun⟩
      | some call =>
          rw [serve_of_admitted hcall] at hstored
          cases hrun : endpoint app req call s.database with
          | error failure =>
              rw [hrun] at hstored
              exact ⟨[], hstored.eq (.refl s) ▸ .nil, nofun⟩
          | ok r =>
              obtain ⟨reply, db⟩ := r
              have hchanges := endpoint_changes hrun
              rw [hrun, inSession] at hstored
              dsimp only at hstored
              cases hcommits : req.commits with
              | true =>
                  rw [hcommits, if_pos rfl] at hstored
                  obtain ⟨as, has, hremove⟩ := changes_refines h hchanges hstored
                  refine ⟨as, has, fun feedId hmem ↦ ?_⟩
                  show (req.admitted app = some (.deleteFeed feedId) && req.commits) = true
                  rw [hcall, hremove feedId hmem, hcommits]
                  simp
              | false =>
                  rw [hcommits, if_neg Bool.false_ne_true] at hstored
                  have hstep : s.Step cfg retention .rollback
                      { s with nextFeedId := db.nextFeedId } :=
                    .rollback (changes_nextFeedId hchanges) (le_refl _)
                  have hrolled : s.Stored { s.database with nextFeedId := db.nextFeedId }
                      { s with nextFeedId := db.nextFeedId } := ⟨rfl, rfl, rfl, rfl, rfl⟩
                  refine ⟨[.rollback], hrolled.eq hstored ▸ Run.single hstep, fun feedId hmem ↦ ?_⟩
                  cases List.mem_singleton.mp hmem

theorem SiteStep.sound (h : s.Sound) (hs : s.SiteStep cfg retention app e t) : t.Sound := by
  obtain ⟨as, has, -⟩ := hs.refines h
  exact h.run has

/-! ## From the acknowledgement of a registration to that of a deletion -/

/-- The id denotes a feed of this URL. -/
def Lists (s : Service) (feedId : Int) (url : Text) : Prop :=
  ∃ f ∈ s.cluster.table, f.id = feedId ∧ f.url = url

theorem Rewrites.lists {table table' : List Feed} (h : Rewrites table table') {url : Text}
    (hf : ∃ f ∈ table, f.id = feedId ∧ f.url = url) :
    ∃ f ∈ table', f.id = feedId ∧ f.url = url := by
  obtain ⟨u, hu, rfl⟩ := h
  obtain ⟨f, hmem, rfl, rfl⟩ := hf
  exact ⟨u f, List.mem_map_of_mem hmem, hu f⟩

/-- No step but its removal takes a feed away. -/
theorem Step.lists {a : ServiceAction} {url : Text} (hs : s.Step cfg retention a t)
    (ha : a ≠ .remove feedId) (h : s.Lists feedId url) : t.Lists feedId url := by
  cases hs with
  | work hstep _ => exact Rewrites.lists hstep.rewrites h
  | commit hstep _ _ _ => exact Rewrites.lists hstep.rewrites h
  | register hkeys =>
      obtain ⟨f, hf, hfeed⟩ := h
      exact ⟨f, List.mem_append_left _ hf, hfeed⟩
  | remove hkeys =>
      obtain ⟨f, hf, rfl, hurl⟩ := h
      refine ⟨f, List.mem_filter.mpr ⟨hf, decide_eq_true fun hid ↦ ?_⟩, rfl, hurl⟩
      exact ha (congrArg ServiceAction.remove hid.symm)
  | load hrow => exact h
  | reactivate _ _ _ => exact Rewrites.lists (rewrites_writeRow _ _ _) h
  | beginSweep => exact h
  | sweep _ _ => exact h
  | rollback _ _ => exact h

theorem SiteStep.lists {url : Text} (hsound : s.Sound) (hs : s.SiteStep cfg retention app e t)
    (he : e.isDeletion app feedId = false) (h : s.Lists feedId url) : t.Lists feedId url := by
  obtain ⟨as, has, hremove⟩ := hs.refines hsound
  have hkept : ∀ a ∈ as, a ≠ .remove feedId := by
    rintro a ha rfl
    exact absurd (hremove feedId ha) (ne_true_of_eq_false he)
  clear hs hremove
  induction has with
  | nil => exact h
  | snoc _ hl ih =>
      exact hl.lists (hkept _ (List.mem_append_right _ List.mem_cons_self))
        (ih fun a ha ↦ hkept a (List.mem_append_left _ ha))

/-- A deletion whose commit succeeds leaves no feed under its id. -/
theorem SiteStep.deletes (hsound : s.Sound) (hid : IsColumnId feedId)
    (hs : s.SiteStep cfg retention app e t) (he : e.isDeletion app feedId = true) :
    ∀ f ∈ t.cluster.table, f.id ≠ feedId := by
  cases hs with
  | background hstep ha => cases he
  | @request req t hstored =>
      obtain ⟨hcall, hcommits⟩ : req.admitted app = some (.deleteFeed feedId) ∧
          req.commits = true := by simpa [SiteEvent.isDeletion] using he
      rw [serve_of_admitted hcall] at hstored
      have htable := congrArg Database.feeds hstored.database
      by_cases hthere : ∃ f ∈ s.cluster.table, f.id = feedId
      · obtain ⟨f, hf, rfl⟩ := hthere
        have hone : oneFeed f.id s.database = .ok (some f) :=
          oneFeed_of_mem hsound.feedIds.keyed hf hid
        have hrun : endpoint app req (.deleteFeed f.id) s.database =
            .ok (⟨204, .empty⟩, s.database.removed f.id) := by
          rw [endpoint, deleteFeed, hone]
          rfl
        rw [hrun, inSession, hcommits] at htable
        intro g hg
        change t.cluster.table = _ at htable
        rw [htable] at hg
        exact of_decide_eq_true (List.mem_filter.mp hg).2
      · have hfree : ∀ f ∈ s.cluster.table, f.id ≠ feedId :=
          fun f hf hfid ↦ hthere ⟨f, hf, hfid⟩
        have hone : oneFeed feedId s.database = .ok none := oneFeed_of_free hfree hid
        have hrun : endpoint app req (.deleteFeed feedId) s.database =
            .ok (⟨204, .empty⟩, s.database) := by
          rw [endpoint, deleteFeed, hone]
          rfl
        rw [hrun, inSession, hcommits] at htable
        change t.cluster.table = s.cluster.table at htable
        rw [htable]
        exact hfree

theorem SiteStep.precedes (h : s.Sound) (hs : s.SiteStep cfg retention app e t) :
    s.Precedes t := by
  obtain ⟨as, has, -⟩ := hs.refines h
  exact .of_run has

/-- A run that starts with a feed ends with it, or without its id when it has been deleted. -/
theorem listed_until_deleted {url : Text} (hsound : s.Sound) (hid : IsColumnId feedId)
    (h : s.Lists feedId url) (hr : Run (SiteStep cfg retention app) s es t) :
    t.Sound ∧ feedId < t.nextFeedId ∧
      if es.any fun e ↦ e.isDeletion app feedId then ∀ f ∈ t.cluster.table, f.id ≠ feedId
      else t.Lists feedId url := by
  induction hr with
  | nil =>
      obtain ⟨f, hf, rfl, -⟩ := id h
      exact ⟨hsound, hsound.feedIds.lt f hf, h⟩
  | @snoc es t u e _ hs ih =>
      obtain ⟨ht, hlt, hlists⟩ := ih
      have hprecedes := hs.precedes ht
      refine ⟨hs.sound ht, hlt.trans_le hprecedes.feeds.next_le, ?_⟩
      rw [List.any_append, List.any_cons, List.any_nil, Bool.or_false]
      cases hdeletion : e.isDeletion app feedId with
      | true =>
          rw [Bool.or_true, if_pos rfl]
          exact hs.deletes ht hid hdeletion
      | false =>
          rw [Bool.or_false]
          split at hlists
          · rename_i hany
            rw [if_pos hany]
            exact hprecedes.feeds.gone hlt hlists
          · rename_i hany
            rw [if_neg hany]
            exact hs.lists ht hdeletion hlists

/-- From the acknowledgement of its registration on, a feed is shown under its id, and is what a
registration of its URL is answered with; once its deletion has been committed, its id is not
found any more. -/
theorem acknowledged {u : Service} {req : HttpRequest} {reply : Reply} {raw : Text}
    {r : FeedResponse} (h : s.Sound) (hs : s.SiteStep cfg retention app (.request req reply) t)
    (hcall : req.admitted app = some (.createFeed raw)) (hcommits : req.commits = true)
    (hreply : reply.body = .feed r) (hid : IsColumnId r.id)
    (hr : Run (SiteStep cfg retention app) t es u) :
    normalizeUrl raw = .ok r.url ∧
    ((es.any fun e ↦ e.isDeletion app r.id) = false → ∃ f : Feed, f.id = r.id ∧ f.url = r.url ∧
      (∀ get, get.admitted app = some (.getFeed r.id) →
        (serve app get u.database).1 = ⟨200, .feed (.ofFeed f)⟩) ∧
      ∀ post raw', post.admitted app = some (.createFeed raw') → post.overPostLimit = none →
        normalizeUrl raw' = .ok r.url →
          (serve app post u.database).1 = ⟨200, .feed (.ofFeed f)⟩) ∧
    ((es.any fun e ↦ e.isDeletion app r.id) = true →
      ∀ get, get.admitted app = some (.getFeed r.id) →
        (serve app get u.database).1 = feedNotFound.reply get.path) := by
  obtain ⟨hurl, hlists⟩ : registrationUrl raw = .ok r.url ∧ t.Lists r.id r.url := by
    cases hs with
    | request hstored =>
        rw [serve_of_admitted hcall] at hstored hreply
        cases hrun : endpoint app req (.createFeed raw) s.database with
        | error failure =>
            rw [hrun] at hreply
            exact absurd hreply failure.reply_ne_feed
        | ok out =>
            obtain ⟨reply, db⟩ := out
            obtain ⟨v, rfl, rfl, f, hf, hfurl, hbody⟩ := createFeed_ok hrun
            rw [hrun, inSession, hcommits] at hstored
            rw [hrun] at hreply
            cases hbody.symm.trans hreply
            have htable : t.cluster.table = (s.database.registered v.url req.now req.dbNow).feeds :=
              congrArg Database.feeds hstored.database
            exact ⟨v.valid.trans (congrArg Except.ok hfurl.symm), f, htable ▸ hf, rfl, rfl⟩
  obtain ⟨hsound, -, hend⟩ := listed_until_deleted (hs.sound h) hid hlists hr
  refine ⟨PublicUrl.normalized ⟨raw, r.url, hurl⟩, fun hkept ↦ ?_, fun hdeleted get hget ↦ ?_⟩
  · rw [if_neg (ne_true_of_eq_false hkept)] at hend
    obtain ⟨f, hf, hfid, hfurl⟩ := hend
    refine ⟨f, hfid, hfurl, fun get hget ↦ ?_, fun post raw' hpost hlimit hnormal ↦ ?_⟩
    · rw [serve_of_admitted hget, endpoint, ← hfid,
        getFeed_of_mem hsound.feedIds.keyed hf (hfid ▸ hid)]
      rfl
    · rw [serve_of_admitted hpost, endpoint, hlimit,
        createFeed_of_mem (u := ⟨raw', r.url, registrationUrl_of_normalized hurl hnormal⟩) post.now
          post.dbNow hsound.urls hf hfurl]
      rfl
  · rw [if_pos hdeleted] at hend
    rw [serve_of_admitted hget, endpoint, getFeed_of_free hend hid]
    rfl

/-- The first registration on empty tables is answered with 201, and its feed is shown. -/
theorem blank_acknowledged : ∃ t f, SiteStep {} {} guarded blank
    (.request (keyed "secret" (.createFeed Registry.slashed.raw))
      ⟨201, .feed (.ofFeed Registry.first)⟩) t ∧ f.id = 1 ∧
    (serve guarded (keyed "secret" (.getFeed 1)) t.database).1 = ⟨200, .feed (.ofFeed f)⟩ := by
  have hserve : serve guarded (keyed "secret" (.createFeed Registry.slashed.raw)) blank.database =
      (⟨201, .feed (.ofFeed Registry.first)⟩, ⟨[Registry.first], 2, [], 1⟩) := by
    decide +kernel
  have hstep : SiteStep {} {} guarded blank
      (.request (keyed "secret" (.createFeed Registry.slashed.raw))
        ⟨201, .feed (.ofFeed Registry.first)⟩)
      ⟨⟨[Registry.first], List.nodup_singleton _, [], .year2000⟩, 2, [], 1, [], []⟩ := by
    have hreply := congrArg Prod.fst hserve
    dsimp only at hreply
    rw [← hreply]
    exact .request ⟨(congrArg Prod.snd hserve).symm, rfl, rfl, rfl, rfl⟩
  obtain ⟨f, hid, -, hget, -⟩ := (acknowledged blank_sound hstep rfl rfl rfl (by decide)
    .nil).2.1 rfl
  exact ⟨_, f, hstep, hid, hget _ (by decide)⟩

end Service

end FeedgateFetcher
