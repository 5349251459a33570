import FeedgateFetcher.StoredUrls

/-!
# Where the address of a feed settles

As long as the redirects of the web stay what they are, a feed has at most two addresses: the one
it had, and the URL at the end of the redirects when one of them is permanent.  The first fetch
that reaches the origin decides for good, also when other fetches of the feed, which have loaded
the old address, are committed later.
-/

namespace FeedgateFetcher

open Python Logic

/-! ## The web -/

/-- Which URLs are redirected, and how the client spells a URL. -/
structure Web where
  redirect : Text → Option Hop
  httpxUrl : Text → Except Exc Text
  /-- The target of a redirect has been spelled by the client. -/
  spelled : ∀ url hop, redirect url = some hop → httpxUrl hop.target = .ok hop.target

/-- Whoever answers the client redirects it as the web does. -/
structure Upstream.Shows (up : Upstream) (w : Web) : Prop where
  httpxUrl : up.httpxUrl = w.httpxUrl
  redirected : ∀ log request a hop, up.httpxTransport log request = .ok a →
    w.redirect request.url = some hop → a.hasRedirectLocation = true ∧
      a.statusCode = hop.statusCode ∧ up.httpxRedirect request.url a = .ok hop.target
  served : ∀ log request a, up.httpxTransport log request = .ok a →
    w.redirect request.url = none → a.hasRedirectLocation = false

namespace Web

/-- The redirects from a URL on, up to a number. -/
def follow (w : Web) : (n : ℕ) → (url : Text) → List Hop
  | 0, _ => []
  | n + 1, url =>
    match w.redirect url with
    | none => []
    | some hop => hop :: w.follow n hop.target

/-- The URL at the end of the redirects when one of them is permanent, and otherwise the address
itself. -/
def home (w : Web) (address : Text) : Text :=
  match w.httpxUrl address with
  | .error _ => address
  | .ok url =>
    let hops := w.follow 20 url
    if MovedPermanently hops ∧ w.redirect (finalUrl url hops) = none then finalUrl url hops
    else address

variable {w : Web} {address url : Text}

theorem follow_of_none (h : w.redirect url = none) (n : ℕ) : w.follow n url = [] := by
  cases n with
  | zero => rfl
  | succ n => rw [follow, h]

/-- The end of some redirects is spelled as the client spells it. -/
theorem finalUrl_spelled {n : ℕ} (h : w.follow n url ≠ []) :
    w.httpxUrl (finalUrl url (w.follow n url)) = .ok (finalUrl url (w.follow n url)) := by
  induction n generalizing url with
  | zero => exact absurd rfl h
  | succ n ih =>
      rw [follow] at h ⊢
      cases hr : w.redirect url with
      | none =>
          rw [hr] at h
          exact absurd rfl h
      | some hop =>
          dsimp only
          rw [finalUrl]
          by_cases hn : w.follow n hop.target = []
          · rw [hn]
            exact w.spelled url hop hr
          · exact ih hn

/-- A feed stays at the address it has moved to, where nothing is redirected. -/
theorem home_cases (w : Web) (address : Text) :
    w.home address = address ∨
      w.redirect (w.home address) = none ∧ w.httpxUrl (w.home address) = .ok (w.home address) := by
  unfold home
  cases w.httpxUrl address with
  | error exc => exact .inl rfl
  | ok url =>
      dsimp only
      split
      · rename_i hmoved
        obtain ⟨⟨hop, hmem, -⟩, hend⟩ := hmoved
        exact .inr ⟨hend, finalUrl_spelled (List.ne_nil_of_mem hmem)⟩
      · exact .inl rfl

theorem home_home (w : Web) (address : Text) : w.home (w.home address) = w.home address := by
  rcases w.home_cases address with h | ⟨hend, hspelled⟩
  · rw [h, h]
  · generalize w.home address = url at hend hspelled
    rw [home, hspelled]
    dsimp only
    rw [follow_of_none hend]
    exact if_neg fun hmoved ↦ List.not_mem_nil hmoved.1.choose_spec.1

end Web

/-! ## One fetch -/

section

variable {up : Upstream} {cfg : Settings} {now : Datetime} {s : FetchState} {w : Web}
  {headers : List (Text × Text)} {response : Response}

theorem guardedRequest_ok {request : Request} {a : Answer} {log log' : RequestLog}
    (h : guardedRequest up request log = (.ok a, log')) :
    up.httpxTransport log request = .ok a := by
  unfold guardedRequest at h
  cases hv : Ssrf.validatePublicUrl up.resolver request.url true with
  | error exc =>
      rw [hv] at h
      cases h
  | ok _ =>
      rw [hv] at h
      exact congrArg Prod.fst h

namespace Upstream.Shows

theorem at_rest (hw : up.Shows w) {log : RequestLog} {request : Request} {a : Answer}
    (h : up.httpxTransport log request = .ok a) (hloc : a.hasRedirectLocation = false) :
    w.redirect request.url = none := by
  cases hr : w.redirect request.url with
  | none => rfl
  | some hop =>
      have hredirected := (hw.redirected _ _ _ _ h hr).1
      exact absurd (hloc.symm.trans hredirected) Bool.false_ne_true

/-- A response comes from the end of the redirects. -/
theorem sendHandlingRedirects (hw : up.Shows w) {n : ℕ} {url : Text} {history : List ℕ}
    {log log' : RequestLog}
    (h : sendHandlingRedirects up headers (n + 1) url history log = (.ok response, log')) :
    response.history = history ++ (w.follow n url).map Hop.statusCode ∧
      response.url = finalUrl url (w.follow n url) ∧ w.redirect response.url = none := by
  induction n generalizing url history log with
  | zero =>
      obtain ⟨a, log₁, hg, ⟨hloc, rfl⟩ | ⟨-, next, -, hrest⟩⟩ := sendHandlingRedirects_cases h
      · exact ⟨(List.append_nil history).symm, rfl, hw.at_rest (guardedRequest_ok hg) hloc⟩
      · cases hrest
  | succ n ih =>
      obtain ⟨a, log₁, hg, ⟨hloc, rfl⟩ | ⟨hloc, next, hnext, hrest⟩⟩ :=
        sendHandlingRedirects_cases h
      · have hrest := hw.at_rest (guardedRequest_ok hg) hloc
        rw [Web.follow_of_none hrest]
        exact ⟨(List.append_nil history).symm, rfl, hrest⟩
      · cases hr : w.redirect url with
        | none =>
            have hserved := hw.served _ _ _ (guardedRequest_ok hg) hr
            exact absurd (hserved.symm.trans hloc) Bool.false_ne_true
        | some hop =>
            obtain ⟨-, hcode, htarget⟩ := hw.redirected _ _ _ _ (guardedRequest_ok hg) hr
            obtain rfl : hop.target = next := Except.ok.inj (htarget.symm.trans hnext)
            obtain ⟨hhistory, hurl, hend⟩ := ih hrest
            rw [Web.follow, hr]
            refine ⟨?_, hurl, hend⟩
            rw [hhistory, List.append_assoc, hcode]
            rfl

/-- A direct answer that is a success moves the feed home. -/
theorem permanentAddress (hw : up.Shows w) (h : directResponse up cfg s = some response) :
    response.permanentAddress.getD s.feed.effectiveUrl =
      if 200 ≤ response.statusCode ∧ response.statusCode < 300 then w.home s.feed.effectiveUrl
      else s.feed.effectiveUrl := by
  obtain ⟨host, t, -, hs, -⟩ := contact_of_direct h
  obtain ⟨hstream, -⟩ := onRequests_eq hs
  rw [httpxStream] at hstream
  cases hu : up.httpxUrl s.feed.effectiveUrl with
  | error exc =>
      rw [hu] at hstream
      cases hstream
  | ok url =>
      rw [hu, Act.ofExcept_ok_bind_apply] at hstream
      obtain ⟨hhistory, hurl, hend⟩ := hw.sendHandlingRedirects hstream
      have hany : (response.history.any fun code ↦ code == 301) = true ↔
          MovedPermanently (w.follow 20 url) := by
        rw [hhistory, List.nil_append, List.any_map, List.any_eq_true]
        simp only [Function.comp_apply, beq_iff_eq]
        rfl
      rw [hurl] at hend
      rw [Response.permanentAddress, Web.home, ← hw.httpxUrl, hu, hurl]
      simp only [hany, hend, and_true]
      by_cases h2 : 200 ≤ response.statusCode ∧ response.statusCode < 300
      · rw [if_pos h2]
        by_cases hm : MovedPermanently (w.follow 20 url)
        · rw [if_pos ⟨h2, hm⟩, if_pos hm]
          rfl
        · rw [if_neg fun hc ↦ hm hc.2, if_neg hm]
          rfl
      · rw [if_neg h2, if_neg fun hc ↦ h2 hc.1]
        rfl

/-- A committed fetch leaves the address or moves the feed home, and does so when its origin has
answered it with a success. -/
theorem processing (hw : up.Shows w) (h : isDurable (processing up cfg now s) = true) :
    ((processing up cfg now s).2.feed.effectiveUrl = s.feed.effectiveUrl ∨
      (processing up cfg now s).2.feed.effectiveUrl = w.home s.feed.effectiveUrl) ∧
    ∀ response, directResponse up cfg s = some response →
      200 ≤ response.statusCode ∧ response.statusCode < 300 →
        (processing up cfg now s).2.feed.effectiveUrl = w.home s.feed.effectiveUrl := by
  rw [processing_effectiveUrl h]
  cases hd : directResponse up cfg s with
  | none =>
      refine ⟨.inl rfl, fun response hresponse ↦ ?_⟩
      cases hresponse
  | some response =>
      rw [Option.bind_some, hw.permanentAddress hd]
      refine ⟨?_, fun response' hresponse h2 ↦ ?_⟩
      · split
        · exact .inr rfl
        · exact .inl rfl
      · cases hresponse
        exact if_pos h2

end Upstream.Shows

end

/-- The only address of the web that has moved for good, to one that is redirected for now. -/
def Web.detoured : Web where
  redirect url :=
    if url = "http://a.example/feed".toList then some ⟨301, "http://new.example/feed".toList⟩
    else if url = "http://new.example/feed".toList then some ⟨302, "http://cdn.example/tmp".toList⟩
    else none
  httpxUrl url := .ok url
  spelled _ _ _ := rfl

/-- Origins that redirect as the web does, and serve a document at the end. -/
def Upstream.showing (w : Web) : Upstream :=
  { silent with
    httpxUrl := w.httpxUrl
    httpxTransport := fun _ request ↦ match w.redirect request.url with
      | some hop => .ok ⟨hop.statusCode, [("Location".toList, hop.target)], [], none⟩
      | none => .ok ⟨200, [], [], none⟩
    httpxRedirect := fun _ a ↦ match a.headers.get "location".toList with
      | some target => .ok target
      | none => .error .httpError
    feedparser := fun _ ↦ some {} }

theorem Upstream.showing_shows (h : ∀ url hop, w.redirect url = some hop →
    [301, 302, 303, 307, 308].contains hop.statusCode = true) : (Upstream.showing w).Shows w := by
  refine ⟨rfl, fun log request a hop hanswer hredirect ↦ ?_, fun log request a hanswer hnone ↦ ?_⟩
  · simp only [Upstream.showing, hredirect] at hanswer
    cases hanswer
    refine ⟨?_, rfl, rfl⟩
    rw [Answer.hasRedirectLocation, h _ hop hredirect]
    rfl
  · simp only [Upstream.showing, hnone] at hanswer
    cases hanswer
    rfl

/-! ## Runs -/

/-- A fetch of the feed that is committed has seen the web as it is. -/
def ServiceAction.Sees (w : Web) (feedId : Int) : ServiceAction → Prop
  | .commit _ c up _ _ => c.feedId = feedId → up.Shows w
  | _ => True

/-- A fetch of the feed is committed, and its origin has answered it with a success. -/
def ServiceAction.Reaches (cfg : Settings) (feedId : Int) : ServiceAction → Prop
  | .commit _ c up session domains => c.feedId = feedId ∧ ∃ row response,
    c.loaded = some row ∧
    directResponse up cfg (Tracked.loaded session domains ⟨row, []⟩) = some response ∧
    200 ≤ response.statusCode ∧ response.statusCode < 300
  | _ => False

namespace Service

variable {cfg : Settings} {retention : RetentionSettings} {s s' t : Service} {a : ServiceAction}
  {w : Web} {feedId : Int} {address : Text}

/-- The feed is still at the address, or at home; and home is where it is if one of its fetches has
found it there. -/
structure Settling (s : Service) (w : Web) (feedId : Int) (address : Text) : Prop where
  taken : feedId < s.nextFeedId
  rows : ∀ f ∈ s.cluster.table, f.id = feedId →
    f.effectiveUrl = address ∨ f.effectiveUrl = w.home address
  loaded : ∀ c ∈ s.cluster.held, c.feedId = feedId → ∀ row, c.loaded = some row →
    row.effectiveUrl = address ∨ row.effectiveUrl = w.home address ∧
      ∀ f ∈ s.cluster.table, f.id = feedId → f.effectiveUrl = w.home address

/-- The feed is at home. -/
def Settled (s : Service) (w : Web) (feedId : Int) (address : Text) : Prop :=
  ∀ f ∈ s.cluster.table, f.id = feedId → f.effectiveUrl = w.home address

section

variable {c : Claim} {row mine f : Feed}

/-- Whichever address has been loaded, the feed has the same home. -/
theorem Settling.home_row (h : s.Settling w feedId address) (hc : c ∈ s.cluster.held)
    (hid : c.feedId = feedId) (hrow : c.loaded = some row) :
    w.home row.effectiveUrl = w.home address := by
  rcases h.loaded c hc hid row hrow with heq | ⟨heq, -⟩
  · rw [heq]
  · rw [heq, w.home_home]

/-- A result is written over an address that it has changed, and moves the feed home then. -/
theorem Settling.writeBack (h : s.Settling w feedId address) (hc : c ∈ s.cluster.held)
    (hid : c.feedId = feedId) (hrow : c.loaded = some row)
    (hmoved : mine.effectiveUrl = row.effectiveUrl ∨
      mine.effectiveUrl = w.home row.effectiveUrl) :
    (Feed.writeBack row mine f).effectiveUrl = f.effectiveUrl ∨
      (Feed.writeBack row mine f).effectiveUrl = w.home address := by
  show (if mine.effectiveUrl = row.effectiveUrl then f.effectiveUrl else mine.effectiveUrl) = _ ∨
    (if mine.effectiveUrl = row.effectiveUrl then f.effectiveUrl else mine.effectiveUrl) = _
  split
  · exact .inl rfl
  · rename_i hne
    exact .inr ((hmoved.resolve_left hne).trans (h.home_row hc hid hrow))

/-- A result that has found the feed at home leaves it there, also when nothing is written because
the row that was loaded had this address. -/
theorem Settling.writeBack_home (h : s.Settling w feedId address) (hc : c ∈ s.cluster.held)
    (hid : c.feedId = feedId) (hrow : c.loaded = some row) (hf : f ∈ s.cluster.table)
    (hfid : f.id = feedId) (harrived : mine.effectiveUrl = w.home row.effectiveUrl) :
    (Feed.writeBack row mine f).effectiveUrl = w.home address := by
  have hhome := h.home_row hc hid hrow
  show (if mine.effectiveUrl = row.effectiveUrl then f.effectiveUrl else mine.effectiveUrl) = _
  split
  · rename_i heq
    rcases h.loaded c hc hid row hrow with hold | ⟨-, hrows⟩
    · have hstays : w.home address = address := by
        rw [← hhome, ← harrived, heq, hold]
      rcases h.rows f hf hfid with hrow | hrow
      · rw [hrow, hstays]
      · exact hrow
    · exact hrows f hf hfid
  · exact harrived.trans hhome

end

theorem reactivateFeed_effectiveUrl (now : Datetime) (r : Tracked) :
    (reactivateFeed now r).feed.effectiveUrl = r.feed.effectiveUrl := by
  unfold reactivateFeed
  split <;> rfl

/-- What a step makes of the address of the feed. -/
theorem Settling.row (h : s.Settling w feedId address) (hsees : a.Sees w feedId)
    (hs : s.Step cfg retention a s') {g : Feed} (hg : g ∈ s'.cluster.table) (hid : g.id = feedId) :
    ∃ f ∈ s.cluster.table, f.id = feedId ∧
      (g.effectiveUrl = f.effectiveUrl ∨ g.effectiveUrl = w.home address) ∧
      (a.Reaches cfg feedId → g.effectiveUrl = w.home address) := by
  cases a with
  | commit now c up session domains =>
      cases hs with
      | @commit _ _ row _ _ _ cluster hstep hrow hdurable hfeed =>
          cases hstep with
          | @finish _ _ loaded _ _ _ _ _ hc hloaded htable _ _ =>
              obtain rfl : loaded = row := Option.some.inj (hloaded.symm.trans hrow)
              rw [htable, show c.settle cfg up session domains loaded s.cluster.table = _ from
                if_pos hdurable] at hg
              obtain ⟨f, hf, rfl⟩ := List.mem_map.mp hg
              by_cases hfid : f.id = c.feedId
              case neg =>
                rw [if_neg hfid] at hid ⊢
                exact ⟨f, hf, hid, .inl rfl, fun hreach ↦ absurd (hid.trans hreach.1.symm) hfid⟩
              rw [if_pos hfid] at hid ⊢
              have hcid : c.feedId = feedId := hfid.symm.trans hid
              obtain ⟨hmoved, harrived⟩ := (hsees hcid).processing hdurable
              exact ⟨f, hf, hid, h.writeBack hc hcid hrow hmoved, fun ⟨_, row', response, hrow',
                hdirect, h2⟩ ↦ h.writeBack_home hc hcid hrow hf hid (harrived response
                  (Option.some.inj (hrow'.symm.trans hrow) ▸ hdirect) h2)⟩
  | _ =>
      rcases hs.column (p := Feed.effectiveUrl) (fun _ _ _ ↦ rfl) (fun _ _ _ h ↦ if_pos h)
        reactivateFeed_effectiveUrl rfl hg with ⟨f, hf, hfid, haddress⟩ | ⟨_, _, _, rfl⟩
      · exact ⟨f, hf, hfid.trans hid, .inl haddress, False.elim⟩
      · exact absurd hid h.taken.ne'

theorem Step.snapshot (hs : s.Step cfg retention a s') {c : Claim} {row : Feed}
    (hc : c ∈ s'.cluster.held) (hrow : c.loaded = some row) :
    c ∈ s.cluster.held ∨ row ∈ s'.cluster.table ∧ row.id = c.feedId := by
  cases hs with
  | work hstep _ => exact hstep.snapshot hc hrow
  | commit hstep _ _ _ => exact hstep.snapshot hc hrow
  | _ => exact .inl hc

theorem Settling.step (h : s.Settling w feedId address) (hsound : s.Sound)
    (hsees : a.Sees w feedId) (hs : s.Step cfg retention a s') : s'.Settling w feedId address := by
  have hrows : ∀ g ∈ s'.cluster.table, g.id = feedId →
      g.effectiveUrl = address ∨ g.effectiveUrl = w.home address := by
    intro g hg hid
    obtain ⟨f, hf, hfid, heq | heq, -⟩ := h.row hsees hs hg hid
    · rw [heq]
      exact h.rows f hf hfid
    · exact .inr heq
  have hhome : s.Settled w feedId address → s'.Settled w feedId address := by
    intro hsettled g hg hid
    obtain ⟨f, hf, hfid, heq | heq, -⟩ := h.row hsees hs hg hid
    · exact heq.trans (hsettled f hf hfid)
    · exact heq
  refine ⟨h.taken.trans_le hs.precedes.feeds.next_le, hrows, fun c hc hid row hrow ↦ ?_⟩
  rcases hs.snapshot hc hrow with hheld | ⟨hmem, htable⟩
  · exact (h.loaded c hheld hid row hrow).imp_right (And.imp_right hhome)
  · refine (hrows row hmem (htable.trans hid)).imp_right fun heq ↦ ⟨heq, fun f hf hfid ↦ ?_⟩
    obtain rfl : f = row := (hsound.step hs).feedIds.keyed.eq_of_key hf hmem
      (hfid.trans (htable.trans hid).symm)
    exact heq

/-- As long as the web redirects as it does, the address of a feed is the one it had or the end of
its redirects, where nothing is redirected.  One committed fetch that reaches the origin settles
which of them it is, whatever fetches are still to be committed. -/
theorem address_settles (h : s.Sound) {f : Feed} (hf : f ∈ s.cluster.table)
    (hloaded : ∀ c ∈ s.cluster.held, c.feedId = f.id → ∀ row, c.loaded = some row →
      row.effectiveUrl = f.effectiveUrl)
    {as : List ServiceAction} (hr : Run (Step cfg retention) s as t)
    (hsees : ∀ a ∈ as, a.Sees w f.id) :
    (w.home f.effectiveUrl ≠ f.effectiveUrl → w.redirect (w.home f.effectiveUrl) = none) ∧
    ∀ g ∈ t.cluster.table, g.id = f.id →
      (g.effectiveUrl = f.effectiveUrl ∨ g.effectiveUrl = w.home f.effectiveUrl) ∧
      ((∃ a ∈ as, a.Reaches cfg f.id) → g.effectiveUrl = w.home f.effectiveUrl) := by
  have hrun : t.Settling w f.id f.effectiveUrl ∧ t.Sound ∧
      ((∃ a ∈ as, a.Reaches cfg f.id) → t.Settled w f.id f.effectiveUrl) := by
    induction hr with
    | nil =>
        refine ⟨⟨h.feedIds.lt f hf, fun g hg hid ↦ ?_, fun c hc hid row hrow ↦ ?_⟩, h, ?_⟩
        · obtain rfl : g = f := h.feedIds.keyed.eq_of_key hg hf hid
          exact .inl rfl
        · exact .inl (hloaded c hc hid row hrow)
        · rintro ⟨a, ha, -⟩
          cases ha
    | @snoc as t u a _ hs ih =>
        obtain ⟨hsettling, hsound, hreached⟩ := ih fun a ha ↦ hsees a (List.mem_append_left _ ha)
        have hlast := hsees a (List.mem_append_right _ List.mem_cons_self)
        refine ⟨hsettling.step hsound hlast hs, hsound.step hs, ?_⟩
        rintro ⟨b, hb, hreach⟩ g hg hid
        obtain ⟨f', hf', hfid, hcases, harrived⟩ := hsettling.row hlast hs hg hid
        rcases List.mem_append.mp hb with hb | hb
        · rcases hcases with heq | heq
          · exact heq.trans (hreached ⟨b, hb, hreach⟩ f' hf' hfid)
          · exact heq
        · cases List.mem_singleton.mp hb
          exact harrived hreach
  refine ⟨fun hne ↦ ((w.home_cases f.effectiveUrl).resolve_left hne).1, fun g hg hid ↦ ?_⟩
  exact ⟨hrun.1.rows g hg hid, fun hreach ↦ hrun.2.2 hreach g hg hid⟩

open Cluster (fresh leased firstClaim)

/-- The temporary address is where the feed settles. -/
theorem detoured_settles : ∃ t, tended.Step {} {} (.commit .year2000
      (firstClaim (some (leased (fresh 1)))) (.showing .detoured) (.start [] 1) []) t ∧
    ∀ g ∈ t.cluster.table, g.id = 1 → g.effectiveUrl = "http://cdn.example/tmp".toList := by
  have hdurable : isDurable ((firstClaim (some (leased (fresh 1)))).run {} (.showing .detoured)
      (.start [] 1) [] (leased (fresh 1))) = true := by decide +kernel
  obtain ⟨t, ht, -⟩ := tended_sound.commit_enabled (List.mem_singleton.mpr rfl) rfl hdurable
    ⟨_, List.mem_singleton.mpr rfl, rfl⟩
  have hshows : (Upstream.showing .detoured).Shows .detoured := by
    refine Upstream.showing_shows fun url hop hredirect ↦ ?_
    unfold Web.detoured at hredirect
    dsimp only at hredirect
    split_ifs at hredirect <;> cases hredirect <;> rfl
  have hloaded : ∀ c ∈ tended.cluster.held, c.feedId = (leased (fresh 1)).id → ∀ row,
      c.loaded = some row → row.effectiveUrl = (leased (fresh 1)).effectiveUrl := by
    intro c hc hid row hrow
    cases List.mem_singleton.mp hc
    cases hrow
    rfl
  have hsees : ∀ a ∈ [ServiceAction.commit .year2000 (firstClaim (some (leased (fresh 1))))
      (.showing .detoured) (.start [] 1) []], a.Sees .detoured (leased (fresh 1)).id := by
    intro a ha
    cases List.mem_singleton.mp ha
    exact fun _ ↦ hshows
  have hreaches : ServiceAction.Reaches {} 1 (.commit .year2000
      (firstClaim (some (leased (fresh 1)))) (.showing .detoured) (.start [] 1) []) :=
    ⟨rfl, leased (fresh 1), ⟨200, [], [], none, "http://cdn.example/tmp".toList, [301, 302]⟩, rfl,
      by decide +kernel, by decide⟩
  refine ⟨t, ht, fun g hg hid ↦ ?_⟩
  have hsettled := ((address_settles tended_sound (List.mem_singleton.mpr rfl) hloaded
    (Run.single ht) hsees).2 g hg hid).2 ⟨_, List.mem_singleton.mpr rfl, hreaches⟩
  exact hsettled.trans (by decide +kernel)

end Service

end FeedgateFetcher
