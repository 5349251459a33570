import FeedgateFetcher.Api.Feeds
import FeedgateFetcher.Clocks
import FeedgateFetcher.Committed
import FeedgateFetcher.Registrations
import FeedgateFetcher.Sweeps

/-!
# The whole service

The two tables under everything that writes to them: the workers of the scheduler, the requests of
the API and the retention sweep, in any order.  A transaction is taken to happen at its commit,
where it also draws its ids, with the rows of `feeds` that it has loaded before; what it read of
`entries` in the meantime is its own.  The rows it has written are locked until then, and the row
of its feed, to which the entries refer, is locked against deletion.  The statement of a sweep
selects its victims in the table as it is when the statement begins, and deletes those of them that
are still there.
-/

namespace FeedgateFetcher

open Python Logic Table

/-- The tables and their sequences, the claims in progress, the rows that requests for a
reactivation have loaded, and the snapshots of the sweeps in progress. -/
structure Service where
  cluster : Cluster
  nextFeedId : Int
  entries : List Entry
  nextEntryId : Int
  reactivating : List Feed
  sweeping : List (List Entry)

/-- What happens to the tables. -/
inductive ServiceAction where
  /-- A claim, the load of a row, or the loss of a claim. -/
  | work (a : Action)
  /-- The commit of a `_process_feed`. -/
  | commit (now : Datetime) (c : Claim) (up : Upstream) (session : Session) (domains : List Text)
  /-- The commit of a `create_feed`. -/
  | register (u : PublicUrl) (now dbNow : Datetime)
  /-- The commit of a `delete_feed`. -/
  | remove (feedId : Int)
  /-- A `reactivate_feed` loads its row. -/
  | load (row : Feed)
  /-- The commit of a `reactivate_feed`. -/
  | reactivate (row : Feed) (now : Datetime)
  /-- The statement of a retention sweep begins. -/
  | beginSweep
  /-- The end of the transaction of a sweep, whose statement has begun with this snapshot. -/
  | sweep (now : Datetime) (fails : Bool) (scan snapshot : List Entry)
  /-- A transaction is rolled back; what it has taken of the sequences is lost. -/
  | rollback

/-- The action is the commit of a fetch. -/
def Action.isFinish : Action → Bool
  | .finish _ _ _ _ _ => true
  | _ => false

/-- A fetch is committed. -/
def ServiceAction.isCommit : ServiceAction → Bool
  | .commit _ _ _ _ _ => true
  | _ => false

namespace Service

/-- The columns of a loaded row that have changed are written over the rows of its id. -/
def writeRow (row mine : Feed) (table : List Feed) : List Feed :=
  table.map fun f ↦ if f.id = row.id then Feed.writeBack row mine f else f

/-- The `feeds` table after a registration. -/
def registered (s : Service) (url : Text) (now dbNow : Datetime) : List Feed :=
  s.cluster.table ++
    (insertFeed (Feed.registered s.nextFeedId url now dbNow) s.cluster.table).toList

/-- What the session of a fetch makes of the `entries` table. -/
def stored (s : Service) (cfg : Settings) (c : Claim) (up : Upstream) (session : Session)
    (domains : List Text) (row : Feed) : Session :=
  Session.upsertAll row.id c.now up.dbNow
    (processedBatch up cfg c.now (Tracked.loaded session domains ⟨row, []⟩))
    (.start s.entries s.nextEntryId)

/-- One change of the tables. -/
inductive Step (cfg : Settings) (retention : RetentionSettings) (s : Service) :
    ServiceAction → Service → Prop
  | work {a : Action} {cluster : Cluster} (hstep : s.cluster.Step cfg a cluster)
    (hfinish : a.isFinish = false) : Step cfg retention s (.work a) { s with cluster := cluster }
  | commit {now : Datetime} {c : Claim} {row : Feed} {up : Upstream} {session : Session}
    {domains : List Text} {cluster : Cluster}
    (hstep : s.cluster.Step cfg (.finish now c up session domains) cluster)
    (hrow : c.loaded = some row) (hdurable : isDurable (c.run cfg up session domains row) = true)
    -- an update that matches no row raises
    (hfeed : ∃ f ∈ s.cluster.table, f.id = c.feedId) :
    Step cfg retention s (.commit now c up session domains)
      { s with
        cluster := cluster
        entries := (s.stored cfg c up session domains row).entries
        nextEntryId := (s.stored cfg c up session domains row).nextEntryId }
  | register {u : PublicUrl} {now dbNow : Datetime}
    (hkeys : ((s.registered u.url now dbNow).map Feed.id).Nodup) :
    Step cfg retention s (.register u now dbNow)
      { s with
        cluster := { s.cluster with table := s.registered u.url now dbNow, keys := hkeys }
        nextFeedId := s.nextFeedId + 1 }
  | remove {feedId : Int}
    (hkeys : ((s.cluster.table.filter fun f ↦ f.id ≠ feedId).map Feed.id).Nodup) :
    Step cfg retention s (.remove feedId)
      { s with
        cluster :=
          { s.cluster with table := s.cluster.table.filter fun f ↦ f.id ≠ feedId, keys := hkeys }
        entries := s.entries.filter fun e ↦ e.feedId ≠ feedId }
  | load {row : Feed} (hrow : row ∈ s.cluster.table) :
    Step cfg retention s (.load row) { s with reactivating := row :: s.reactivating }
  | reactivate {row : Feed} {now : Datetime} (hrow : row ∈ s.reactivating)
    -- as for a fetch
    (hfeed : ∃ f ∈ s.cluster.table, f.id = row.id)
    (hkeys : ((writeRow row (reactivateFeed now ⟨row, []⟩).feed s.cluster.table).map
      Feed.id).Nodup) :
    Step cfg retention s (.reactivate row now)
      { s with
        cluster :=
          { s.cluster with
            table := writeRow row (reactivateFeed now ⟨row, []⟩).feed s.cluster.table
            keys := hkeys }
        reactivating := s.reactivating.erase row }
  | beginSweep : Step cfg retention s .beginSweep { s with sweeping := s.entries :: s.sweeping }
  | sweep {now : Datetime} {fails : Bool} {scan snapshot : List Entry}
    (hsnapshot : snapshot ∈ s.sweeping)
    (hscan : ∀ cutoff : Datetime,
      cutoff.micros = now.micros - retention.retentionDays * microsPerDay →
      scan.Perm (victims cutoff retention.retentionMinPerFeed snapshot)) :
    Step cfg retention s (.sweep now fails scan snapshot)
      { s with
        -- victims that another transaction has deleted in the meantime are passed over
        entries := s.entries.filter fun e ↦ e.id ∉ sweptIds retention now fails scan snapshot
        sweeping := s.sweeping.erase snapshot }
  | rollback {nextFeedId nextEntryId : Int} (hfeed : s.nextFeedId ≤ nextFeedId)
    (hentry : s.nextEntryId ≤ nextEntryId) :
    Step cfg retention s .rollback
      { s with nextFeedId := nextFeedId, nextEntryId := nextEntryId }

/-- The constraints of the schema. -/
structure Sound (s : Service) : Prop where
  feedIds : Serial Feed.id s.nextFeedId s.cluster.table
  urls : Keyed Feed.url s.cluster.table
  entryIds : Serial Entry.id s.nextEntryId s.entries
  guids : Keyed Entry.key s.entries
  references : Refers Entry.feedId Feed.id s.entries s.cluster.table
  /-- What a claim has loaded is the row of its feed. -/
  loaded : ∀ c ∈ s.cluster.held, ∀ row, c.loaded = some row → row.id = c.feedId
  /-- A snapshot is an earlier state of the entries. -/
  snapshots : ∀ snapshot ∈ s.sweeping, ∃ next, Serial Entry.id next snapshot ∧
    Evolves Entry.id Entry.Continues next snapshot s.nextEntryId s.entries

end Service

/-! ## Updates of `feeds` -/

/-- `g` is a later state of the feed `f`, which keeps its URL. -/
def Feed.Continues (f g : Feed) : Prop := g.url = f.url

theorem Feed.Continues.refl (f : Feed) : f.Continues f := Eq.refl f.url

theorem Feed.Continues.trans {f g h : Feed} (hfg : f.Continues g) (hgh : g.Continues h) :
    f.Continues h := Eq.trans hgh hfg

/-- An `UPDATE` that leaves the ids and the URLs alone. -/
def Rewrites (table table' : List Feed) : Prop :=
  ∃ u : Feed → Feed, (∀ f, (u f).id = f.id ∧ (u f).url = f.url) ∧ table' = table.map u

namespace Rewrites

variable {table table' : List Feed}

theorem refl (table : List Feed) : Rewrites table table :=
  ⟨fun f ↦ f, fun _ ↦ ⟨rfl, rfl⟩, (List.map_id' table).symm⟩

/-- An update of the rows that satisfy `p`. -/
theorem of_if {p : Feed → Prop} [DecidablePred p] {u : Feed → Feed}
    (h : ∀ f, (u f).id = f.id ∧ (u f).url = f.url) (table : List Feed) :
    Rewrites table (table.map fun f ↦ if p f then u f else f) := by
  refine ⟨_, fun f ↦ ?_, rfl⟩
  split
  · exact h f
  · exact ⟨rfl, rfl⟩

theorem evolves (h : Rewrites table table') (next : Int) :
    Evolves Feed.id Feed.Continues next table next table' := by
  obtain ⟨u, hu, rfl⟩ := h
  exact .revise (fun f ↦ (hu f).1) (fun f _ ↦ (hu f).2) next

theorem keyed (h : Rewrites table table') (hk : Keyed Feed.url table) : Keyed Feed.url table' := by
  obtain ⟨u, hu, rfl⟩ := h
  exact hk.map fun f ↦ (hu f).2

theorem refers (h : Rewrites table table') {entries : List Entry}
    (hr : Refers Entry.feedId Feed.id entries table) :
    Refers Entry.feedId Feed.id entries table' := by
  obtain ⟨u, hu, rfl⟩ := h
  exact hr.of_keys fun f hf ↦ ⟨u f, List.mem_map_of_mem hf, (hu f).1⟩

end Rewrites

/-- A row that is written back with the URL it was loaded with keeps its own. -/
theorem Feed.writeBack_registration {row mine : Feed} (h : mine.url = row.url) (f : Feed) :
    (Feed.writeBack row mine f).id = f.id ∧ (Feed.writeBack row mine f).url = f.url :=
  ⟨rfl, if_pos h⟩

theorem Claim.rewrites_settle (cfg : Settings) (c : Claim) (up : Upstream) (session : Session)
    (domains : List Text) (row : Feed) (table : List Feed) :
    Rewrites table (c.settle cfg up session domains row table) := by
  by_cases hd : isDurable (c.run cfg up session domains row) = true
  · have hwritten := (processing_written hd).2
    rw [show c.settle cfg up session domains row table = table.map fun f ↦
      if f.id = c.feedId then Feed.writeBack row (c.run cfg up session domains row).2.feed f
      else f from if_pos hd]
    exact .of_if (p := fun f ↦ f.id = c.feedId)
      (Feed.writeBack_registration (congrArg Prod.snd hwritten)) table
  · rw [show c.settle cfg up session domains row table = table from if_neg hd]
    exact .refl table

namespace Cluster

variable {cfg : Settings} {s s' : Cluster} {a : Action}

theorem Step.rewrites (h : s.Step cfg a s') : Rewrites s.table s'.table := by
  cases h with
  | @claim now worker scan ids s' _ _ htable _ _ =>
      obtain ⟨probeCutoff, leaseUntil, -, -, -, htable'⟩ := claimDueFeeds_ok htable
      rw [htable']
      exact .of_if (p := fun f ↦ f.id ∈ claimIds now probeCutoff cfg.fetchClaimBatchSize scan)
        (u := Feed.lease now leaseUntil) (fun _ ↦ ⟨rfl, rfl⟩) s.table
  | finish _ _ _ htable _ _ =>
      rw [htable]
      exact Claim.rewrites_settle _ _ _ _ _ _ s.table
  | load _ _ _ _ htable _ _ => exact htable ▸ .refl s.table
  | abandon _ htable _ _ => exact htable ▸ .refl s.table
  | crash _ htable _ _ => exact htable ▸ .refl s.table

/-- A worker that commits nothing leaves the columns alone that a lease does not have. -/
theorem Step.column {γ : Type} {p : Feed → γ}
    (hlease : ∀ now leaseUntil f, p (Feed.lease now leaseUntil f) = p f) (h : s.Step cfg a s')
    (ha : a.isFinish = false) {g : Feed} (hg : g ∈ s'.table) :
    ∃ f ∈ s.table, f.id = g.id ∧ p g = p f := by
  cases h with
  | claim _ _ htable _ _ =>
      obtain ⟨f, hf, hid, ⟨-, rfl⟩ | ⟨-, leaseUntil, -, rfl⟩⟩ := mem_claimDueFeeds htable hg
      · exact ⟨_, hf, rfl, rfl⟩
      · exact ⟨f, hf, hid, hlease _ _ f⟩
  | finish _ _ _ _ _ _ => cases ha
  | load _ _ _ _ htable _ _ => exact ⟨g, htable ▸ hg, rfl, rfl⟩
  | abandon _ htable _ _ => exact ⟨g, htable ▸ hg, rfl, rfl⟩
  | crash _ htable _ _ => exact ⟨g, htable ▸ hg, rfl, rfl⟩

/-- What a claim has loaded was loaded before, or is the row of its feed. -/
theorem Step.snapshot (h : s.Step cfg a s') {d : Claim} {row : Feed} (hd : d ∈ s'.held)
    (hrow : d.loaded = some row) : d ∈ s.held ∨ row ∈ s'.table ∧ row.id = d.feedId := by
  cases h with
  | claim _ _ _ hheld _ =>
      rw [hheld] at hd
      rcases List.mem_append.mp hd with hd | hd
      · exact .inl hd
      · obtain ⟨id, -, rfl⟩ := List.mem_map.mp hd
        cases hrow
  | load _ hc hmem hid htable hheld _ =>
      rw [hheld] at hd
      obtain ⟨d', hd', rfl⟩ := List.mem_map.mp hd
      split at hrow
      · cases hrow
        rw [if_pos (by assumption)]
        exact .inr ⟨htable ▸ hmem, hid⟩
      · rw [if_neg (by assumption)]
        exact .inl hd'
  | finish _ _ _ _ hheld _ =>
      rw [hheld] at hd
      exact .inl (List.mem_of_mem_erase hd)
  | abandon _ _ hheld _ =>
      rw [hheld] at hd
      exact .inl (List.mem_of_mem_erase hd)
  | crash _ _ hheld _ =>
      rw [hheld] at hd
      exact .inl (List.mem_of_mem_filter hd)

/-- A claim loads the row of its feed. -/
theorem Step.loaded (h : s.Step cfg a s')
    (hs : ∀ c ∈ s.held, ∀ row, c.loaded = some row → row.id = c.feedId) :
    ∀ c ∈ s'.held, ∀ row, c.loaded = some row → row.id = c.feedId := by
  intro c hc row hrow
  rcases h.snapshot hc hrow with hc | ⟨-, hid⟩
  · exact hs c hc row hrow
  · exact hid

end Cluster

/-! ## What a step makes of the tables -/

namespace Service

variable {cfg : Settings} {retention : RetentionSettings} {s s' : Service} {a : ServiceAction}

/-- A later state of the tables: no id has come to denote another feed or another entry. -/
structure Precedes (s s' : Service) : Prop where
  feeds : Evolves Feed.id Feed.Continues s.nextFeedId s.cluster.table s'.nextFeedId
    s'.cluster.table
  entries : Evolves Entry.id Entry.Continues s.nextEntryId s.entries s'.nextEntryId s'.entries

theorem Precedes.refl (s : Service) : s.Precedes s :=
  ⟨.refl Feed.Continues.refl _ _, .refl Entry.Continues.refl _ _⟩

theorem Precedes.trans {t : Service} (h : s.Precedes t) (h' : t.Precedes s') : s.Precedes s' :=
  ⟨h.feeds.trans (fun _ _ _ ↦ Feed.Continues.trans) h'.feeds,
    h.entries.trans (fun _ _ _ ↦ Entry.Continues.trans) h'.entries⟩

theorem registered_evolves (s : Service) (url : Text) (now dbNow : Datetime) :
    Evolves Feed.id Feed.Continues s.nextFeedId s.cluster.table (s.nextFeedId + 1)
      (s.registered url now dbNow) := by
  have hlt : s.nextFeedId < s.nextFeedId + 1 := Int.lt_succ _
  unfold registered
  cases hi : insertFeed (Feed.registered s.nextFeedId url now dbNow) s.cluster.table with
  | none =>
      rw [Option.toList_none, List.append_nil]
      exact .skip Feed.Continues.refl _ hlt.le
  | some f =>
      obtain ⟨rfl, -⟩ := insertFeed_eq_some hi
      exact .insert Feed.Continues.refl rfl hlt

theorem registered_urls (h : Keyed Feed.url s.cluster.table) (url : Text) (now dbNow : Datetime) :
    Keyed Feed.url (s.registered url now dbNow) := by
  unfold registered
  cases hi : insertFeed (Feed.registered s.nextFeedId url now dbNow) s.cluster.table with
  | none =>
      rw [Option.toList_none, List.append_nil]
      exact h
  | some f =>
      obtain ⟨rfl, hfree⟩ := insertFeed_eq_some hi
      exact h.append_single hfree

theorem stored_evolves (s : Service) (cfg : Settings) (c : Claim) (up : Upstream)
    (session : Session) (domains : List Text) (row : Feed) :
    Evolves Entry.id Entry.Continues s.nextEntryId s.entries
      (s.stored cfg c up session domains row).nextEntryId
      (s.stored cfg c up session domains row).entries :=
  upsertAll_evolves row.id c.now up.dbNow _ (.start s.entries s.nextEntryId)

theorem rewrites_writeRow (row : Feed) (now : Datetime) (table : List Feed) :
    Rewrites table (writeRow row (reactivateFeed now ⟨row, []⟩).feed table) := by
  refine .of_if (p := fun f ↦ f.id = row.id) (Feed.writeBack_registration ?_) table
  unfold reactivateFeed
  split <;> rfl

/-- Whatever commits no fetch leaves the columns alone that neither a lease nor a reactivation has,
except in the row of a new feed. -/
theorem Step.column {γ : Type} {p : Feed → γ}
    (hlease : ∀ now leaseUntil f, p (Feed.lease now leaseUntil f) = p f)
    (hwrite : ∀ row mine f, p mine = p row → p (Feed.writeBack row mine f) = p f)
    (hreactivate : ∀ now r, p (reactivateFeed now r).feed = p r.feed)
    (h : s.Step cfg retention a s') (ha : a.isCommit = false) {g : Feed}
    (hg : g ∈ s'.cluster.table) :
    (∃ f ∈ s.cluster.table, f.id = g.id ∧ p g = p f) ∨
      ∃ url now dbNow, g = Feed.registered s.nextFeedId url now dbNow := by
  cases h with
  | work hstep hfinish => exact .inl (hstep.column hlease hfinish hg)
  | commit _ _ _ _ => cases ha
  | register _ =>
      rcases List.mem_append.mp hg with hg | hg
      · exact .inl ⟨g, hg, rfl, rfl⟩
      · exact .inr ⟨_, _, _, (insertFeed_eq_some (Option.mem_toList.mp hg)).1⟩
  | remove _ => exact .inl ⟨g, List.mem_of_mem_filter hg, rfl, rfl⟩
  | @reactivate row now _ _ _ =>
      obtain ⟨f, hf, rfl⟩ := List.mem_map.mp hg
      by_cases hid : f.id = row.id
      · rw [if_pos hid]
        exact .inl ⟨f, hf, rfl, hwrite _ _ f (hreactivate now ⟨row, []⟩)⟩
      · rw [if_neg hid]
        exact .inl ⟨f, hf, rfl, rfl⟩
  | load _ => exact .inl ⟨g, hg, rfl, rfl⟩
  | beginSweep => exact .inl ⟨g, hg, rfl, rfl⟩
  | sweep _ _ => exact .inl ⟨g, hg, rfl, rfl⟩
  | rollback _ _ => exact .inl ⟨g, hg, rfl, rfl⟩

theorem Step.precedes (h : s.Step cfg retention a s') : s.Precedes s' := by
  cases h with
  | work hstep _ => exact ⟨hstep.rewrites.evolves _, .refl Entry.Continues.refl _ _⟩
  | commit hstep hrow hdurable hfeed =>
      exact ⟨hstep.rewrites.evolves _, s.stored_evolves _ _ _ _ _ _⟩
  | register hkeys => exact ⟨s.registered_evolves _ _ _, .refl Entry.Continues.refl _ _⟩
  | remove hkeys =>
      exact ⟨.delete Feed.Continues.refl _ List.filter_sublist,
        .delete Entry.Continues.refl _ List.filter_sublist⟩
  | load hrow => exact ⟨.refl Feed.Continues.refl _ _, .refl Entry.Continues.refl _ _⟩
  | reactivate hrow hfeed hkeys =>
      exact ⟨(rewrites_writeRow _ _ _).evolves _, .refl Entry.Continues.refl _ _⟩
  | beginSweep => exact ⟨.refl Feed.Continues.refl _ _, .refl Entry.Continues.refl _ _⟩
  | sweep hsnapshot hscan =>
      exact ⟨.refl Feed.Continues.refl _ _, .delete Entry.Continues.refl _ List.filter_sublist⟩
  | rollback hfeed hentry =>
      exact ⟨.skip Feed.Continues.refl _ hfeed, .skip Entry.Continues.refl _ hentry⟩

/-- A snapshot was taken before, or just now of the entries as they are. -/
theorem Step.mem_sweeping (h : s.Step cfg retention a s') {snapshot : List Entry}
    (hsnapshot : snapshot ∈ s'.sweeping) :
    snapshot ∈ s.sweeping ∨ snapshot = s.entries := by
  cases h with
  | beginSweep => exact (List.mem_cons.mp hsnapshot).symm
  | sweep _ _ => exact .inl (List.mem_of_mem_erase hsnapshot)
  | work _ _ => exact .inl hsnapshot
  | commit _ _ _ _ => exact .inl hsnapshot
  | register _ => exact .inl hsnapshot
  | remove _ => exact .inl hsnapshot
  | load _ => exact .inl hsnapshot
  | reactivate _ _ _ => exact .inl hsnapshot
  | rollback _ _ => exact .inl hsnapshot

/-- The entries have evolved from every snapshot. -/
theorem Sound.snapshots_step (h : s.Sound) (hs : s.Step cfg retention a s') :
    ∀ snapshot ∈ s'.sweeping, ∃ next, Serial Entry.id next snapshot ∧
      Evolves Entry.id Entry.Continues next snapshot s'.nextEntryId s'.entries := by
  intro snapshot hsnapshot
  rcases hs.mem_sweeping hsnapshot with hold | rfl
  · obtain ⟨next, hserial, hevolves⟩ := h.snapshots snapshot hold
    exact ⟨next, hserial, hevolves.trans (fun _ _ _ ↦ Entry.Continues.trans) hs.precedes.entries⟩
  · exact ⟨s.nextEntryId, h.entryIds, hs.precedes.entries⟩

/-- Every step keeps the constraints of the schema. -/
theorem Sound.step (h : s.Sound) (hs : s.Step cfg retention a s') : s'.Sound := by
  have hfeeds := hs.precedes.feeds.serial h.feedIds
  have hentries := hs.precedes.entries.serial h.entryIds
  have hsnapshots := h.snapshots_step hs
  cases hs with
  | work hstep _ =>
      exact ⟨hfeeds, hstep.rewrites.keyed h.urls, hentries, h.guids,
        hstep.rewrites.refers h.references, hstep.loaded h.loaded, hsnapshots⟩
  | @commit now c row up session domains cluster hstep hrow hdurable hfeed =>
      have hc : c ∈ s.cluster.held := by
        cases hstep with
        | finish _ hc _ _ _ _ => exact hc
      have hid := h.loaded c hc row hrow
      refine ⟨hfeeds, hstep.rewrites.keyed h.urls, hentries, ?_, ?_, hstep.loaded h.loaded,
        hsnapshots⟩
      · exact (upsertAll_law _ _ _ _ _).keyed h.guids
      · exact hstep.rewrites.refers (upsertAll_refers h.references (hid ▸ hfeed))
  | register hkeys =>
      refine ⟨hfeeds, registered_urls h.urls _ _ _, hentries, h.guids, ?_, h.loaded, hsnapshots⟩
      exact h.references.of_keys fun f hf ↦ ⟨f, List.mem_append_left _ hf, rfl⟩
  | remove hkeys =>
      exact ⟨hfeeds, h.urls.sublist List.filter_sublist, hentries,
        h.guids.sublist List.filter_sublist, h.references.cascade _, h.loaded, hsnapshots⟩
  | load hrow => exact ⟨hfeeds, h.urls, hentries, h.guids, h.references, h.loaded, hsnapshots⟩
  | reactivate hrow hfeed hkeys =>
      exact ⟨hfeeds, (rewrites_writeRow _ _ _).keyed h.urls, hentries, h.guids,
        (rewrites_writeRow _ _ _).refers h.references, h.loaded, hsnapshots⟩
  | beginSweep => exact ⟨hfeeds, h.urls, hentries, h.guids, h.references, h.loaded, hsnapshots⟩
  | sweep hsnapshot hscan =>
      exact ⟨hfeeds, h.urls, hentries, h.guids.sublist List.filter_sublist,
        h.references.of_subset List.filter_sublist.subset, h.loaded, hsnapshots⟩
  | rollback _ _ =>
      exact ⟨hfeeds, h.urls, hentries, h.guids, h.references, h.loaded, hsnapshots⟩

/-! ## A service with one feed -/

open Cluster (fresh leased firstClaim unclaimed claimed)

/-- A database without rows. -/
def blank : Service := ⟨⟨[], List.nodup_nil, [], .year2000⟩, 1, [], 1, [], []⟩

theorem blank_sound : blank.Sound :=
  ⟨.nil _ _, .nil _, .nil _ _, .nil _, fun _ he ↦ absurd he List.not_mem_nil,
    fun _ hc ↦ absurd hc List.not_mem_nil, fun _ hs ↦ absurd hs List.not_mem_nil⟩

/-- The feed is being fetched, and has one entry. -/
def tended : Service :=
  ⟨claimed (some (leased (fresh 1))), 2, [fetchedEntry 1 .year2000], 2, [], []⟩

theorem tended_sound : tended.Sound := by
  refine ⟨⟨by decide, by decide⟩, by decide, ⟨by decide, by decide⟩, by decide, by decide, ?_,
    fun _ hs ↦ absurd hs List.not_mem_nil⟩
  intro c hc row hrow
  cases List.mem_singleton.mp hc
  cases hrow
  rfl

/-! ## Runs -/

theorem Precedes.of_run {as : List ServiceAction} (h : Run (Step cfg retention) s as s') :
    s.Precedes s' := by
  induction h with
  | nil => exact .refl s
  | snoc _ hs ih => exact ih.trans hs.precedes

theorem Sound.run {as : List ServiceAction} (h : s.Sound) (hr : Run (Step cfg retention) s as s') :
    s'.Sound := hr.invariant (fun _ _ _ ht hs ↦ ht.step hs) h

theorem Sound.register_enabled (h : s.Sound) (u : PublicUrl) (now dbNow : Datetime) :
    ∃ s', s.Step cfg retention (.register u now dbNow) s' :=
  ⟨_, .register ((s.registered_evolves u.url now dbNow).serial h.feedIds).keyed⟩

theorem Sound.remove_enabled (h : s.Sound) (feedId : Int) :
    ∃ s', s.Step cfg retention (.remove feedId) s' :=
  ⟨_, .remove (h.feedIds.keyed.sublist List.filter_sublist)⟩

/-- A reactivation whose feed is still there can be committed. -/
theorem Sound.reactivate_enabled (h : s.Sound) {row : Feed} (hrow : row ∈ s.reactivating)
    (hfeed : ∃ f ∈ s.cluster.table, f.id = row.id) (now : Datetime) :
    ∃ s', s.Step cfg retention (.reactivate row now) s' :=
  ⟨_, .reactivate hrow hfeed
    (((rewrites_writeRow row now s.cluster.table).evolves s.nextFeedId).serial h.feedIds).keyed⟩

/-- A fetch whose feed is still there can be committed. -/
theorem Sound.commit_enabled (h : s.Sound) {c : Claim} {row : Feed} {up : Upstream}
    {session : Session} {domains : List Text} (hc : c ∈ s.cluster.held)
    (hrow : c.loaded = some row) (hdurable : isDurable (c.run cfg up session domains row) = true)
    (hfeed : ∃ f ∈ s.cluster.table, f.id = c.feedId) :
    ∃ t, s.Step cfg retention (.commit s.cluster.clock c up session domains) t ∧
      t.cluster.table = c.settle cfg up session domains row s.cluster.table := by
  have hkeys : ((c.settle cfg up session domains row s.cluster.table).map Feed.id).Nodup :=
    (((Claim.rewrites_settle cfg c up session domains row _).evolves s.nextFeedId).serial
      h.feedIds).keyed
  have hfinish : s.cluster.Step cfg (.finish s.cluster.clock c up session domains)
      ⟨_, hkeys, s.cluster.held.erase c, s.cluster.clock⟩ :=
    .finish (le_refl _) hc hrow rfl rfl rfl
  exact ⟨_, .commit hfinish hrow hdurable hfeed, rfl⟩

/-- The fetch runs into a timeout. -/
theorem tended_commit : ∃ t, tended.Step {} {}
    (.commit .year2000 (firstClaim (some (leased (fresh 1)))) .silent (.start [] 1) []) t := by
  have hdurable : isDurable ((firstClaim (some (leased (fresh 1)))).run {} .silent (.start [] 1) []
      (leased (fresh 1))) = true := by decide +kernel
  obtain ⟨t, ht, -⟩ := tended_sound.commit_enabled (List.mem_singleton.mpr rfl) rfl hdurable
    ⟨_, List.mem_singleton.mpr rfl, rfl⟩
  exact ⟨t, ht⟩

/-- In every state that the service reaches, the constraints of the schema hold, and no request of
the API is kept from its commit by them, as long as the feed of a reactivation is still there. -/
theorem integrity {as : List ServiceAction} (h : s.Sound)
    (hr : Run (Step cfg retention) s as s') :
    s'.Sound ∧
      (∀ (u : PublicUrl) (now dbNow : Datetime),
        ∃ t, s'.Step cfg retention (.register u now dbNow) t) ∧
      (∀ feedId : Int, ∃ t, s'.Step cfg retention (.remove feedId) t) ∧
      ∀ row ∈ s'.reactivating, (∃ f ∈ s'.cluster.table, f.id = row.id) → ∀ now : Datetime,
        ∃ t, s'.Step cfg retention (.reactivate row now) t := by
  have hs' := h.run hr
  exact ⟨hs', hs'.register_enabled, hs'.remove_enabled,
    fun _ hrow hfeed now ↦ hs'.reactivate_enabled hrow hfeed now⟩

theorem tended_integrity : ∃ t, tended.Step {} {}
    (.commit .year2000 (firstClaim (some (leased (fresh 1)))) .silent (.start [] 1) []) t ∧
    t.Sound := by
  obtain ⟨t, ht⟩ := tended_commit
  exact ⟨t, ht, (integrity tended_sound (Run.single ht)).1⟩

/-- An id that is in a table at two instants has been there all the time between them, and denotes
the same: a feed under its URL, or an entry of its feed under its guid and the instant at which it
was fetched. -/
theorem identity {t : Service} {as as' : List ServiceAction} (h : s.Sound)
    (hr : Run (Step cfg retention) s as s') (hr' : Run (Step cfg retention) s' as' t) :
    (∀ f ∈ s.cluster.table, ∀ g ∈ t.cluster.table, f.id = g.id →
      f.Continues g ∧ ∃ f' ∈ s'.cluster.table, f'.id = f.id) ∧
    ∀ e ∈ s.entries, ∀ d ∈ t.entries, e.id = d.id →
      e.Continues d ∧ ∃ e' ∈ s'.entries, e'.id = e.id := by
  have hbefore := Precedes.of_run hr
  have hafter := Precedes.of_run hr'
  have hprecedes := hbefore.trans hafter
  constructor
  · intro f hf g hg hid
    refine ⟨hprecedes.feeds.same_of_key h.feedIds hf hg hid, ?_⟩
    by_contra hgone
    push Not at hgone
    have hnext := (h.feedIds.lt f hf).trans_le hbefore.feeds.next_le
    exact hafter.feeds.gone hnext hgone g hg hid.symm
  · intro e he d hd hid
    refine ⟨hprecedes.entries.same_of_key h.entryIds he hd hid, ?_⟩
    by_contra hgone
    push Not at hgone
    have hnext := (h.entryIds.lt e he).trans_le hbefore.entries.next_le
    exact hafter.entries.gone hnext hgone d hd hid.symm

theorem tended_identity : ∃ t, tended.Step {} {}
    (.commit .year2000 (firstClaim (some (leased (fresh 1)))) .silent (.start [] 1) []) t ∧
    ∀ f ∈ t.cluster.table, f.id = 1 → f.url = (fresh 1).url := by
  obtain ⟨t, ht⟩ := tended_commit
  refine ⟨t, ht, fun f hf hid ↦ ?_⟩
  have hfirst : leased (fresh 1) ∈ tended.cluster.table := List.mem_singleton.mpr rfl
  exact ((identity tended_sound (Run.single ht) .nil).1 _ hfirst f hf hid.symm).1

/-- A feed that has been removed is not in any later state, whatever claims of it are in progress,
and no entry of it is. -/
theorem removed_for_good {t : Service} {as : List ServiceAction} {feedId : Int} (h : s.Sound)
    (hf : ∃ f ∈ s.cluster.table, f.id = feedId) (hs : s.Step cfg retention (.remove feedId) t)
    (hr : Run (Step cfg retention) t as s') :
    (∀ f ∈ s'.cluster.table, f.id ≠ feedId) ∧ ∀ e ∈ s'.entries, e.feedId ≠ feedId := by
  have hnext : feedId < t.nextFeedId := by
    obtain ⟨f, hf, rfl⟩ := hf
    exact (h.feedIds.lt f hf).trans_le hs.precedes.feeds.next_le
  have hgone : ∀ f ∈ t.cluster.table, f.id ≠ feedId := by
    cases hs with
    | remove hkeys =>
        intro f hf
        exact of_decide_eq_true (List.mem_filter.mp hf).2
  have hgone' := (Precedes.of_run hr).feeds.gone hnext hgone
  refine ⟨hgone', fun e he ↦ ?_⟩
  obtain ⟨f, hf, hid⟩ := ((h.step hs).run hr).references e he
  exact hid ▸ hgone' f hf

/-- The feed is removed while a worker is fetching it, and its URL is registered again. -/
theorem tended_removed : ∃ t s : Service, tended.Step {} {} (.remove 1) t ∧
    Run (Step {} {}) t [.work (.abandon .year2000 (firstClaim (some (leased (fresh 1))))),
      .register Registry.slashed .year2000 .year2000] s ∧
    (∀ f ∈ s.cluster.table, f.id ≠ 1) ∧ ∀ e ∈ s.entries, e.feedId ≠ 1 := by
  obtain ⟨t, ht⟩ : ∃ t, tended.Step {} {} (.remove 1) t := tended_sound.remove_enabled 1
  have hlost : t.cluster.Step {} (.abandon .year2000 (firstClaim (some (leased (fresh 1)))))
      { t.cluster with held := t.cluster.held.erase (firstClaim (some (leased (fresh 1)))) } := by
    cases ht with
    | remove _ => exact .abandon (le_refl _) rfl rfl rfl
  have hwork : t.Step {} {} (.work (.abandon .year2000 (firstClaim (some (leased (fresh 1))))))
      { t with cluster := _ } := .work hlost rfl
  obtain ⟨s, hs⟩ : ∃ s, Step {} {} _ (.register Registry.slashed .year2000 .year2000) s :=
    ((tended_sound.step ht).step hwork).register_enabled Registry.slashed .year2000 .year2000
  have hrun := (Run.single hwork).snoc hs
  exact ⟨t, s, ht, hrun,
    removed_for_good tended_sound ⟨_, List.mem_singleton.mpr rfl, rfl⟩ ht hrun⟩

/-! ## What the retention sweep leaves -/

/-- A step that does not remove the feed of the entry, and ends a sweep only if the entry is younger
than `retention_days` or was among the first ones of its feed when the sweep began. -/
def SparingStep (cfg : Settings) (retention : RetentionSettings) (e : Entry) (s : Service)
    (a : ServiceAction) (s' : Service) : Prop :=
  s.Step cfg retention a s' ∧ a ≠ .remove e.feedId ∧
    ∀ now fails scan snapshot, a = .sweep now fails scan snapshot →
      now.micros - retention.retentionDays * microsPerDay ≤ e.fetchedAt.micros ∨
        ∀ f ∈ snapshot, f.id = e.id → rowNumber snapshot f ≤ retention.retentionMinPerFeed

theorem SparingStep.spares {e : Entry} (hN : 0 ≤ retention.retentionMinPerFeed) (h : s.Sound)
    (hs : s.SparingStep cfg retention e a s') {e' : Entry} (he' : e' ∈ s.entries)
    (hcontinues : e.Continues e') : ∃ e'' ∈ s'.entries, e.Continues e'' := by
  obtain ⟨hstep, hremove, hsweep⟩ := hs
  cases hstep with
  | @commit now c row up session domains cluster hstep _ _ _ =>
      obtain ⟨e'', he'', hcontinues'⟩ := (upsertAll_law row.id c.now up.dbNow
        (processedBatch up cfg c.now (Tracked.loaded session domains ⟨row, []⟩))
        (.start s.entries s.nextEntryId)).kept e' he'
      exact ⟨e'', he'', hcontinues.trans hcontinues'⟩
  | @remove feedId hkeys =>
      refine ⟨e', List.mem_filter.mpr ⟨he', decide_eq_true fun hid ↦ ?_⟩, hcontinues⟩
      exact hremove (congrArg ServiceAction.remove
        (hid.symm.trans (congrArg Prod.fst hcontinues.key)))
  | @sweep now fails scan snapshot hsnapshot hscan =>
      obtain ⟨next, hserial, hevolves⟩ := h.snapshots snapshot hsnapshot
      refine ⟨e', List.mem_filter.mpr ⟨he', decide_eq_true fun hswept ↦ ?_⟩, hcontinues⟩
      -- the row of the snapshot that would be deleted is the entry, which the rule keeps
      obtain ⟨f, hf, hid⟩ := List.mem_map.mp hswept
      obtain ⟨hf, hgone⟩ := List.mem_filter.mp hf
      refine of_decide_eq_true hgone (tickOnce_spares hserial.keyed hN hscan hf ?_)
      have hsame : f.Continues e' := hevolves.same_of_key hserial hf he' hid
      rw [← hsame.fetchedAt, hcontinues.fetchedAt]
      exact (hsweep now fails scan snapshot rfl).imp_right fun hfirst ↦
        hfirst f hf (hid.trans hcontinues.id)
  | work _ _ => exact ⟨e', he', hcontinues⟩
  | register _ => exact ⟨e', he', hcontinues⟩
  | load _ => exact ⟨e', he', hcontinues⟩
  | reactivate _ _ _ => exact ⟨e', he', hcontinues⟩
  | beginSweep => exact ⟨e', he', hcontinues⟩
  | rollback _ _ => exact ⟨e', he', hcontinues⟩

/-- An entry is kept, under its id, as long as its feed is not removed and every sweep finds it
younger than `retention_days` or among the first ones of its feed. -/
theorem retained {as : List ServiceAction} {e : Entry} (hN : 0 ≤ retention.retentionMinPerFeed)
    (h : s.Sound) (he : e ∈ s.entries) (hr : Run (SparingStep cfg retention e) s as s') :
    ∃ e' ∈ s'.entries, e.Continues e' := by
  have hinv : s'.Sound ∧ ∃ e' ∈ s'.entries, e.Continues e' :=
    hr.invariant (P := fun t ↦ t.Sound ∧ ∃ e' ∈ t.entries, e.Continues e')
      (fun _ _ _ ⟨ht, _, he', hc⟩ hs ↦ ⟨ht.step hs.1, hs.spares hN ht he' hc⟩)
      ⟨h, e, he, .refl e⟩
  exact hinv.2

/-- Nothing is deleted while all entries are among the first ones of their feeds. -/
theorem victims_eq_nil {minPerFeed : Int} {table : List Entry}
    (h : ∀ e ∈ table, rowNumber table e ≤ minPerFeed) (cutoff : Datetime) :
    victims cutoff minPerFeed table = [] := by
  refine List.filter_eq_nil_iff.mpr fun e he hout ↦ of_decide_eq_true hout ?_
  refine List.mem_append_right _ (List.mem_map_of_mem (List.mem_filter.mpr ⟨he, ?_⟩))
  exact decide_eq_true (h e he)

/-- The entry is a century old when the sweep finds it, but the first of its feed. -/
theorem tended_retained : ∃ t, Run (Step {} {}) tended
      [.beginSweep, .sweep .year2101 false [] tended.entries] t ∧
    ∃ e ∈ t.entries, (fetchedEntry 1 .year2000).Continues e := by
  have hfirst : ∀ e ∈ tended.entries, rowNumber tended.entries e ≤ (20 : Int) := by
    intro e he
    cases List.mem_singleton.mp he
    decide +kernel
  have hbegin : tended.SparingStep {} {} (fetchedEntry 1 .year2000) .beginSweep
      { tended with sweeping := [tended.entries] } :=
    ⟨.beginSweep, nofun, nofun⟩
  obtain ⟨t, hsweep⟩ : ∃ t, Step {} {} { tended with sweeping := [tended.entries] }
      (.sweep .year2101 false [] tended.entries) t :=
    ⟨_, .sweep (List.mem_singleton.mpr rfl) fun cutoff _ ↦
      .of_eq (victims_eq_nil hfirst cutoff).symm⟩
  have hspares : SparingStep {} {} (fetchedEntry 1 .year2000)
      { tended with sweeping := [tended.entries] }
      (.sweep .year2101 false [] tended.entries) t := by
    refine ⟨hsweep, nofun, fun _ _ _ snapshot ha ↦ ?_⟩
    cases ha
    exact .inr fun f hf _ ↦ hfirst f hf
  exact ⟨t, (Run.single hbegin.1).snoc hsweep, retained (by decide) tended_sound
    (List.mem_singleton.mpr rfl) ((Run.single hbegin).snoc hspares)⟩

end Service

end FeedgateFetcher
