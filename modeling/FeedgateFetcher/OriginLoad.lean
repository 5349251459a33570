import FeedgateFetcher.Committed
import FeedgateFetcher.Guarding
import FeedgateFetcher.Logic.Cost
import FeedgateFetcher.Politeness

/-!
# What an origin has to bear

The requests of one fetch are bounded by the redirects that the two clients follow, and the fetches
of one feed by their distance.  So is the number of requests that a feed causes in any span of time,
whatever its origin answers and wherever its fetches are cut off.  Counted are the requests that are
handed to the clients; one that `libcurl` sends again over a new connection is the same request.
-/

namespace FeedgateFetcher

open Python Logic

/-! ## One fetch -/

/-- The guarded client follows twenty redirects, the other one ten. -/
def maxRequests : ℕ := 21 + 11

section

variable {up : Upstream} {cfg : Settings} {headers : List (Text × Text)}

theorem appends_guardedRequest (request : Request) :
    Act.Appends (fun log : RequestLog ↦ log) 1 (guardedRequest up request) := by
  unfold guardedRequest
  refine (Act.keeps_ofExcept _ _).bind_appends fun _ ↦ (Act.keeps_get _).bind_appends fun _ ↦ ?_
  exact (Act.appends_modify fun _ ↦ rfl).bind_keeps fun _ ↦ Act.keeps_ofExcept _ _

theorem appends_sendHandlingRedirects (n : ℕ) (url : Text) (history : List ℕ) :
    Act.Appends (fun log : RequestLog ↦ log) n
      (sendHandlingRedirects up headers n url history) := by
  induction n generalizing url history with
  | zero => exact (Act.keeps_raise _ _).appends 0
  | succ n ih =>
      rw [sendHandlingRedirects, Nat.add_comm]
      refine (appends_guardedRequest _).bind fun a ↦ .ite ?_ ((Act.keeps_pure _ _).appends n)
      refine (Act.keeps_ofExcept _ _).bind_appends fun next ↦ ?_
      cases a.brokenOff with
      | some exc => exact (Act.keeps_raise _ _).appends n
      | none => exact ih next _

theorem appends_httpxStream (url : Text) :
    Act.Appends (fun log : RequestLog ↦ log) 21 (httpxStream up url headers) :=
  (Act.keeps_ofExcept _ _).bind_appends fun url ↦ appends_sendHandlingRedirects 21 url []

theorem appends_curlHop (url : Text) :
    Act.Appends (fun log : RequestLog ↦ log) 1 (curlHop up headers url) := by
  unfold curlHop
  refine (Act.keeps_get _).bind_appends fun _ ↦ (Act.appends_modify fun _ ↦ rfl).bind_keeps fun _ ↦
    (Act.keeps_ofExcept _ _).bind fun a ↦ ?_
  cases a.brokenOff with
  | some exc => exact Act.keeps_raise _ _
  | none => exact Act.keeps_pure _ _

theorem appends_curlGet (n : ℕ) (url : Text) :
    Act.Appends (fun log : RequestLog ↦ log) (n + 1) (curlGet up headers n url) := by
  induction n generalizing url with
  | zero =>
      rw [curlGet]
      refine (appends_curlHop url).bind_keeps ?_
      rintro ⟨a, next⟩
      cases next with
      | none => exact Act.keeps_pure _ _
      | some next => exact Act.keeps_raise _ _
  | succ n ih =>
      rw [curlGet, Nat.add_comm]
      refine (appends_curlHop url).bind ?_
      rintro ⟨a, next⟩
      cases next with
      | none => exact (Act.keeps_pure _ _).appends _
      | some next => exact ih next

theorem appends_fetchViaImpersonation (maxBytes : ℕ) (underTimeout : Bool) (url : Text) :
    Act.Appends (fun log : RequestLog ↦ log) 11
      (fetchViaImpersonation up maxBytes underTimeout url headers) := by
  unfold fetchViaImpersonation
  refine (Act.keeps_ofExcept _ _).bind_appends fun _ ↦
    .ite ((Act.keeps_raise _ _).appends 11) ?_
  exact ((appends_curlGet 10 url).mapError _).bind_keeps fun _ ↦ Act.keeps_ofExcept _ _

variable {α : Type} {n : ℕ} {m : Act RequestLog Exc α}

theorem appends_onRequests (h : Act.Appends (fun log : RequestLog ↦ log) n m) :
    Act.Appends FetchState.requests n (onRequests m) :=
  h.zoom (fun _ ↦ rfl) fun _ _ ↦ rfl

theorem appends_retryForbidden (host url : Text) :
    Act.Appends FetchState.requests 11 (retryForbidden up cfg host url headers) := by
  unfold retryForbidden
  refine Act.Appends.bind_keeps (Act.Appends.handle (n := 11) (k := 0) ?_ fun exc ↦ ?_)
    fun _ ↦ Act.keeps_pure _ _
  · refine (appends_onRequests (appends_fetchViaImpersonation _ _ _)).bind_keeps fun r ↦ ?_
    refine Act.Keeps.bind (Act.keeps_modify ?_) fun _ ↦ Act.keeps_pure _ _
    exact fun _ ↦ rfl
  · cases exc with
    | _ => exact (Act.keeps_raise _ _).appends 0

theorem appends_exchange : Act.Appends FetchState.requests maxRequests (exchange up cfg) := by
  unfold exchange
  refine (Act.keeps_get _).bind_appends fun s ↦ (Act.keeps_ofExcept _ _).bind_appends fun parts ↦
    .ite ?_ ?_
  · exact ((appends_onRequests (appends_fetchViaImpersonation _ _ _)).bind_keeps fun _ ↦
      Act.keeps_pure _ _).mono (by decide)
  · refine (appends_onRequests (appends_httpxStream _)).bind fun response ↦ ?_
    refine .ite ((Act.keeps_pure _ _).appends 11) (.ite ((Act.keeps_pure _ _).appends 11)
      (.ite (appends_retryForbidden _ _) ?_))
    exact (keeps_requests_readDirect response).appends 11

variable {now : Datetime} {weekly : ℕ}

theorem appends_attempt :
    Act.Appends FetchState.requests maxRequests (attempt up cfg now weekly) := by
  rw [attempt_eq, contact]
  refine Act.Appends.bind_keeps ?_ fun x ↦ keeps_respond (p := FetchState.requests)
    (fun _ _ ↦ rfl) (fun _ _ ↦ rfl) (fun _ _ ↦ rfl) (fun _ _ ↦ rfl) x
  exact (Act.keeps_get _).bind_appends fun s ↦ (Act.keeps_ofExcept _ _).bind_appends fun _ ↦
    appends_exchange

theorem appends_fetchOne : Act.Appends FetchState.requests maxRequests (fetchOne up cfg now) := by
  refine (keeps_prepare up now (fun _ ↦ rfl) fun _ _ ↦ rfl).bind_appends fun weekly ↦ ?_
  refine Act.Appends.bind_keeps (Act.Appends.handle (k := 0) appends_attempt fun exc ↦ ?_)
    fun flow ↦ ?_
  · exact (keeps_recordFailure (fun _ _ ↦ rfl) (fun _ _ ↦ rfl) exc).appends 0
  · cases flow with
    | returned => exact Act.keeps_pure _ _
    | completed => exact keeps_schedule up cfg now weekly fun _ _ ↦ rfl

/-- Whatever the origin answers, a `_process_feed` sends a bounded number of requests. -/
theorem appends_processing :
    Act.Appends FetchState.requests maxRequests (processing up cfg now) := by
  have hload : Act.Keeps FetchState.requests (load up) := Act.keeps_zoom fun _ _ ↦ rfl
  refine hload.bind_appends fun _ ↦ (Act.keeps_get _).bind_appends fun s ↦
    appends_fetchOne.bind_keeps fun _ ↦ (Act.keeps_get _).bind fun t ↦ .ite ?_ (Act.keeps_pure _ _)
  exact Act.keeps_zoom fun _ _ ↦ rfl

end

/-! ## All fetches of a feed -/

/-- A `_process_feed` of the claim that is cut off has sent so many requests: the first ones of some
run, if it has loaded the row. -/
def Claim.HasSent (cfg : Settings) (c : Claim) (n : ℕ) : Prop :=
  n = 0 ∨ ∃ up session domains row, c.loaded = some row ∧
    n ≤ (c.run cfg up session domains row).2.requests.length

/-- The `_process_feed` of the claim, which the action ends, has sent so many requests. -/
def Action.Sent (cfg : Settings) (c : Claim) (n : ℕ) : Action → Prop
  | .finish _ _ up session domains => ∃ row, c.loaded = some row ∧
    n = (c.run cfg up session domains row).2.requests.length
  | _ => c.HasSent cfg n

/-- The claims in progress that the action ends. -/
def Action.ended (s : Cluster) : Action → List Claim
  | .finish _ c _ _ _ => [c]
  | .abandon _ c => if c ∈ s.held then [c] else []
  | .crash _ worker => s.held.filter fun c ↦ c.worker = worker
  | _ => []

/-- A run sends the requests of both clients at most. -/
theorem Claim.length_requests_le (cfg : Settings) (c : Claim) (up : Upstream) (session : Session)
    (domains : List Text) (row : Feed) :
    (c.run cfg up session domains row).2.requests.length ≤ maxRequests := by
  have hbound : Act.Appends FetchState.requests maxRequests (processing up cfg c.now) :=
    appends_processing
  obtain ⟨sent, hsent, hle⟩ := hbound (Tracked.loaded session domains ⟨row, []⟩)
  show (processing up cfg c.now _).2.requests.length ≤ maxRequests
  rw [hsent]
  exact hle

theorem Claim.HasSent.le {cfg : Settings} {c : Claim} {n : ℕ} (h : c.HasSent cfg n) :
    n ≤ maxRequests := by
  rcases h with rfl | ⟨up, session, domains, row, -, hle⟩
  · exact Nat.zero_le _
  · exact hle.trans (c.length_requests_le cfg up session domains row)

theorem Action.Sent.le {cfg : Settings} {a : Action} {c : Claim} {n : ℕ} (h : a.Sent cfg c n) :
    n ≤ maxRequests := by
  cases a with
  | finish now c' up session domains =>
      obtain ⟨row, -, rfl⟩ := h
      exact c.length_requests_le cfg up session domains row
  | _ => exact Claim.HasSent.le h

theorem sum_le_of_forall₂ {r : Claim → ℕ → Prop} (hr : ∀ c n, r c n → n ≤ maxRequests)
    {claims : List Claim} {ns : List ℕ} (h : List.Forall₂ r claims ns) :
    ns.sum ≤ maxRequests * claims.length := by
  induction h with
  | nil => exact le_refl 0
  | cons hn _ ih =>
      rw [List.sum_cons, List.length_cons, Nat.mul_succ, Nat.add_comm]
      exact Nat.add_le_add ih (hr _ _ hn)

namespace Cluster

variable {cfg : Settings} {s s' : Cluster} {a : Action} {feedId : Int}

/-- The claims of the feed in progress. -/
def heldOf (feedId : Int) (s : Cluster) : List Claim := s.held.filter fun c ↦ c.feedId = feedId

/-- A step, and the number of requests that the `_process_feed`s of the feed which it ends have
sent. -/
def CountedStep (cfg : Settings) (feedId : Int) (s : Cluster) (l : Action × ℕ) (s' : Cluster) :
    Prop :=
  TimelyStep cfg s l.1 s' ∧ ∃ ns : List ℕ,
    List.Forall₂ (fun c n ↦ l.1.Sent cfg c n) ((l.1.ended s).filter fun c ↦ c.feedId = feedId) ns ∧
      l.2 = ns.sum

/-- A claim comes to be in progress when it is made, and ends at most once. -/
theorem Step.length_heldOf_le (h : s.Step cfg a s') (feedId : Int) :
    (s'.heldOf feedId).length + ((a.ended s).filter fun c ↦ c.feedId = feedId).length ≤
      (s.heldOf feedId).length + if a.takes feedId then 1 else 0 := by
  simp only [heldOf, ← List.countP_eq_length_filter]
  cases h with
  | @claim now worker scan ids s' hclock hscan htable hheld hnow =>
      obtain ⟨-, hnodup, -⟩ := claimDueFeeds_spec s.keys hscan htable
      have hnew : (ids.map fun id ↦ (⟨worker, id, now, none⟩ : Claim)).countP
          (fun c ↦ c.feedId = feedId) = ids.count feedId := by
        rw [List.countP_map, List.count]
        exact List.countP_congr fun id _ ↦ by simp
      rw [hheld, List.countP_append, hnew]
      refine Nat.add_le_add_left (n := ids.count feedId + 0) ?_ _
      show ids.count feedId ≤ if ids.contains feedId = true then 1 else 0
      split
      · exact List.nodup_iff_count_le_one.mp hnodup feedId
      · rename_i hnot
        exact (List.count_eq_zero.mpr fun hmem ↦ hnot (List.contains_iff_mem.mpr hmem)).le
  | @load now c row s' hclock hc hrow hid htable hheld hnow =>
      rw [hheld, List.countP_map]
      refine Nat.add_le_add_right (List.countP_congr fun d _ ↦ ?_).le _
      simp only [Function.comp_apply, decide_eq_true_eq]
      split
      · rename_i heq
        rw [heq]
      · exact Iff.rfl
  | @finish now c row up session domains s' hclock hc hrow htable hheld hnow =>
      rw [hheld, Action.ended]
      have hsplit := (List.perm_cons_erase hc).countP_eq fun d ↦ decide (d.feedId = feedId)
      rw [List.countP_cons] at hsplit
      rw [List.countP_singleton]
      exact hsplit.ge
  | @abandon now c s' hclock htable hheld hnow =>
      rw [hheld, Action.ended]
      split
      case isTrue hc =>
        have hsplit := (List.perm_cons_erase hc).countP_eq fun d ↦ decide (d.feedId = feedId)
        rw [List.countP_cons] at hsplit
        rw [List.countP_singleton]
        exact hsplit.ge
      case isFalse => exact List.erase_sublist.countP_le
  | @crash now worker s' hclock htable hheld hnow =>
      have hsplit := List.countP_eq_countP_filter_add s.held (fun c ↦ decide (c.feedId = feedId))
        fun c ↦ decide (c.worker = worker)
      rw [hheld, Action.ended, Nat.add_comm]
      refine le_trans (le_of_eq ?_) (Nat.le_add_right _ _)
      simpa only [decide_not] using hsplit.symm

/-- What has been sent, and what the claims in progress may send, is paid for by the claims. -/
theorem sum_sent_le {ls : List (Action × ℕ)} (h : Run (CountedStep cfg feedId) s ls s') :
    (ls.map Prod.snd).sum + maxRequests * (s'.heldOf feedId).length ≤
      maxRequests *
        ((s.heldOf feedId).length + (ls.map Prod.fst).countP (Action.takes feedId)) := by
  induction h with
  | nil => exact (Nat.zero_add _).le
  | @snoc ls t u l _ hs ih =>
      obtain ⟨⟨-, hstep⟩, ns, hns, hl⟩ := hs
      have hended := hstep.length_heldOf_le feedId
      have hsent := sum_le_of_forall₂ (fun _ _ ↦ Action.Sent.le) hns
      have hmul := Nat.mul_le_mul_left maxRequests hended
      rw [Nat.mul_add, Nat.mul_add] at hmul
      simp only [List.map_append, List.map_singleton, List.sum_append, List.sum_singleton,
        List.countP_append, List.countP_singleton]
      rw [Nat.mul_add] at ih ⊢
      rw [Nat.mul_add]
      omega

/-- However its origin redirects, breaks off or turns down requests, and wherever its fetches are
cut off, a feed causes at most thirty-two requests for every claim, so at most thirty-two in every
gap. -/
theorem origin_spared (hcfg : cfg.Valid) (httl : 0 ≤ cfg.fetchClaimTtlSeconds)
    (hprobe : cfg.fetchClaimTtlSeconds * microsPerSecond ≤
      cfg.deadProbeIntervalDays * microsPerDay)
    {s₀ : Cluster} {ls : List (Action × ℕ)} (h₀ : s₀.held = [])
    (h : Run (CountedStep cfg feedId) s₀ ls s) {running : List ℕ}
    (hrunning : List.Forall₂ (fun c n ↦ c.HasSent cfg n) (s.heldOf feedId) running) :
    (ls.map Prod.snd).sum + running.sum ≤
        maxRequests * (ls.map Prod.fst).countP (Action.takes feedId) ∧
    (((ls.map Prod.snd).sum + running.sum : ℕ) : Int) * cfg.claimGap ≤
      maxRequests * (s.clock.micros - s₀.clock.micros + cfg.claimGap) := by
  have hsum : (ls.map Prod.snd).sum + running.sum ≤
      maxRequests * (ls.map Prod.fst).countP (Action.takes feedId) := by
    have hsent := sum_sent_le h
    have hrest := sum_le_of_forall₂ (fun _ _ ↦ Claim.HasSent.le) hrunning
    have hidle : s₀.heldOf feedId = [] := by
      rw [heldOf, h₀]
      rfl
    rw [hidle, List.length_nil, Nat.zero_add] at hsent
    omega
  refine ⟨hsum, ?_⟩
  have hgap := claimGap_nonneg hcfg httl
  have hdistance := (metered_run hcfg hprobe h₀
    (h.relabel (f := Prod.fst) fun _ _ _ hs ↦ hs.1) feedId).le hcfg httl
  calc (((ls.map Prod.snd).sum + running.sum : ℕ) : Int) * cfg.claimGap
      ≤ (maxRequests * (ls.map Prod.fst).countP (Action.takes feedId) : ℕ) * cfg.claimGap :=
        Int.mul_le_mul_of_nonneg_right (Int.ofNat_le.mpr hsum) hgap
    _ = maxRequests * ((ls.map Prod.fst).countP (Action.takes feedId) * cfg.claimGap) := by
        rw [Nat.cast_mul, mul_assoc]
    _ ≤ maxRequests * (s.clock.micros - s₀.clock.micros + cfg.claimGap) :=
        Int.mul_le_mul_of_nonneg_left hdistance (Int.natCast_nonneg _)

/-- An origin that redirects the feed to itself. -/
def circling : Upstream :=
  { Upstream.answering ⟨302, [("Location".toList, "/feed".toList)], [], none⟩ with
    httpxRedirect := fun url _ ↦ .ok url }

/-- It is asked twenty times, and then the worker dies. -/
theorem circling_spared :
    ((firstClaim (some (leased (fresh 1)))).run {} circling (.start [] 1) []
      (leased (fresh 1))).2.requests.length = 21 ∧
    ([(Action.claim .year2000 1 [fresh 1] [1], 0),
      (.load .year2000 (firstClaim none) (leased (fresh 1)), 0),
      (.crash .year2000 1, 20)].map Prod.snd).sum + 0 ≤ maxRequests * 1 := by
  have hrequests : ((firstClaim (some (leased (fresh 1)))).run {} circling (.start [] 1) []
      (leased (fresh 1))).2.requests.length = 21 := by decide +kernel
  have h₁ : CountedStep {} 1 unclaimed (.claim .year2000 1 [fresh 1] [1], 0) (claimed none) :=
    ⟨⟨fun _ hc ↦ absurd hc List.not_mem_nil, claim_first⟩, [], .nil, rfl⟩
  have h₂ : CountedStep {} 1 (claimed none)
      (.load .year2000 (firstClaim none) (leased (fresh 1)), 0)
      (claimed (some (leased (fresh 1)))) :=
    ⟨⟨by decide, .load (le_refl _) (List.mem_singleton.mpr rfl) (List.mem_singleton.mpr rfl) rfl
      rfl (by decide +kernel) rfl⟩, [], .nil, rfl⟩
  have hcut : (firstClaim (some (leased (fresh 1)))).HasSent {} 20 :=
    .inr ⟨circling, .start [] 1, [], leased (fresh 1), rfl, by rw [hrequests]; decide⟩
  have h₃ : CountedStep {} 1 (claimed (some (leased (fresh 1)))) (.crash .year2000 1, 20)
      ⟨[leased (fresh 1)], by decide, [], .year2000⟩ :=
    ⟨⟨by decide, .crash (le_refl _) rfl rfl rfl⟩, [20], .cons hcut .nil, rfl⟩
  refine ⟨hrequests, ?_⟩
  exact (origin_spared Settings.valid_default (by decide) (by decide) rfl
    (((Run.single h₁).snoc h₂).snoc h₃) .nil).1

end Cluster

end FeedgateFetcher
