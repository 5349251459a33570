import FeedgateFetcher.Guarding
import FeedgateFetcher.PublicTargets
import FeedgateFetcher.Redirects
import FeedgateFetcher.Service

/-!
# The URLs in the database

A URL gets into the `feeds` table in two ways: a registration, which asks the guard without
resolving the host, and a permanent redirect, whose target has been through the guarded transport.
So the database never holds one that the guard would reject by its text alone.
-/

namespace FeedgateFetcher

open Python Logic

/-! ## URLs that pass without a resolution -/

namespace Ssrf

/-- The scheme is allowed, and there is a host, which is not the literal of a blocked address. -/
def Plain (url : Text) : Prop :=
  ∃ parts host, SplitResult.urlsplit url = .ok parts ∧ Text.lower parts.scheme ∈ allowedSchemes ∧
    parts.hostname = some host ∧ ∀ ip, IPAddress.parse host = some ip → ¬isBlockedIp ip

/-- Without a resolution the guard asks for nothing else. -/
theorem plain_iff (resolver : Resolver) (url : Text) :
    (validatePublicUrl resolver url false).isOk ↔ Plain url := by
  unfold Plain validatePublicUrl
  cases hsplit : SplitResult.urlsplit url with
  | error e => simp [Except.mapError, bind, Except.bind, Except.isOk, Except.toBool]
  | ok parts =>
      by_cases hscheme : Text.lower parts.scheme ∈ allowedSchemes
      case neg =>
        simp [hscheme, Except.mapError, bind, Except.bind, Except.isOk, Except.toBool, throw,
          throwThe, MonadExceptOf.throw]
      case pos =>
        cases hhost : parts.hostname with
        | none =>
            simp [hscheme, hhost, Except.mapError, bind, Except.bind, Except.isOk, Except.toBool,
              throw, throwThe, MonadExceptOf.throw]
        | some host =>
            cases hparse : IPAddress.parse host with
            | some ip =>
                cases hblocked : isBlockedIp ip <;>
                  simp [hscheme, hhost, hparse, hblocked, Except.mapError, bind, Except.bind,
                    Except.isOk, Except.toBool, throw, throwThe, MonadExceptOf.throw, pure,
                    Except.pure]
            | none =>
                simp [hscheme, hhost, hparse, Except.mapError, bind, Except.bind, Except.isOk,
                  Except.toBool, pure, Except.pure]

/-- What passes with a resolution passes without one. -/
theorem plain_of_accepts {resolver : Resolver} {url : Text} (h : accepts resolver url) :
    Plain url := by
  obtain ⟨parts, host, hsplit, hscheme, hhost, hcases⟩ := accepts_iff.mp h
  refine ⟨parts, host, hsplit, hscheme, hhost, fun ip hip ↦ ?_⟩
  rcases hcases with ⟨ip', hparse, hfree⟩ | ⟨hnone, -⟩
  · obtain rfl : ip = ip' := Option.some.inj (hip.symm.trans hparse)
    exact hfree
  · cases hip.symm.trans hnone

end Ssrf

/-- A registration is checked. -/
theorem PublicUrl.plain (u : PublicUrl) : Ssrf.Plain u.url := by
  have h := u.valid
  unfold registrationUrl at h
  rw [u.normalized] at h
  refine (Ssrf.plain_iff (fun _ ↦ .ok []) u.url).mp ?_
  cases hv : Ssrf.validatePublicUrl (fun _ ↦ .ok []) u.url false with
  | ok _ => rfl
  | error exc =>
      dsimp only [bind, Except.bind, Except.mapError] at h
      rw [hv] at h
      cases exc <;> cases h

/-! ## The addresses that redirects lead to -/

section

variable {up : Upstream} {cfg : Settings} {now : Datetime} {s : FetchState}
  {headers : List (Text × Text)} {response : Response}

theorem guardedRequest_accepts {url : Text} {a : Answer} {log log' : RequestLog}
    (h : guardedRequest up ⟨url, headers⟩ log = (.ok a, log')) :
    Ssrf.accepts up.resolver url = true := by
  unfold guardedRequest at h
  cases hv : Ssrf.validatePublicUrl up.resolver url true with
  | error exc =>
      rw [hv] at h
      cases h
  | ok _ =>
      rw [Ssrf.accepts, hv]
      rfl

/-- A response is the answer to the request, or to one that the answer leads to. -/
theorem sendHandlingRedirects_cases {n : Nat} {url : Text} {history : List Nat}
    {log log' : RequestLog}
    (h : sendHandlingRedirects up headers (n + 1) url history log = (.ok response, log')) :
    ∃ a log₁, guardedRequest up ⟨url, headers⟩ log = (.ok a, log₁) ∧
      (a.hasRedirectLocation = false ∧
          response = ⟨a.statusCode, a.headers, a.chunks, a.brokenOff, url, history⟩ ∨
        a.hasRedirectLocation = true ∧ ∃ next, up.httpxRedirect url a = .ok next ∧
          sendHandlingRedirects up headers n next (history ++ [a.statusCode]) log₁ =
            (.ok response, log')) := by
  rw [sendHandlingRedirects] at h
  rcases hg : guardedRequest up ⟨url, headers⟩ log with ⟨exc | a, log₁⟩
  · rw [Act.bind_of_error hg] at h
    cases h
  rw [Act.bind_of_ok hg] at h
  refine ⟨a, log₁, rfl, ?_⟩
  cases hloc : a.hasRedirectLocation with
  | false =>
      rw [hloc] at h
      cases h
      exact .inl ⟨rfl, rfl⟩
  | true =>
      rw [hloc, if_pos rfl] at h
      cases hnext : up.httpxRedirect url a with
      | error exc =>
          rw [hnext] at h
          cases h
      | ok next =>
          rw [hnext, Act.ofExcept_ok_bind_apply] at h
          cases hb : a.brokenOff with
          | some exc =>
              rw [hb] at h
              cases h
          | none =>
              rw [hb] at h
              exact .inr ⟨rfl, next, rfl, h⟩

/-- The URL that answers has passed the guard, wherever the redirects began. -/
theorem sendHandlingRedirects_accepts {n : Nat} {url : Text} {history : List Nat}
    {log log' : RequestLog}
    (h : sendHandlingRedirects up headers n url history log = (.ok response, log')) :
    Ssrf.accepts up.resolver response.url = true := by
  induction n generalizing url history log with
  | zero => cases h
  | succ n ih =>
      obtain ⟨a, log₁, hg, ⟨-, rfl⟩ | ⟨-, next, -, hrest⟩⟩ := sendHandlingRedirects_cases h
      · exact guardedRequest_accepts hg
      · exact ih hrest

theorem directResponse_accepts (h : directResponse up cfg s = some response) :
    Ssrf.accepts up.resolver response.url = true := by
  obtain ⟨host, t, -, hs, -⟩ := contact_of_direct h
  obtain ⟨hstream, -⟩ := onRequests_eq hs
  rw [httpxStream] at hstream
  cases hu : up.httpxUrl s.feed.effectiveUrl with
  | error exc =>
      rw [hu] at hstream
      cases hstream
  | ok url =>
      rw [hu, Act.ofExcept_ok_bind_apply] at hstream
      exact sendHandlingRedirects_accepts hstream

/-- A committed `_process_feed` leaves the address of its row, or the one that a direct answer has
moved it to. -/
theorem processing_effectiveUrl (h : isDurable (processing up cfg now s) = true) :
    (processing up cfg now s).2.feed.effectiveUrl =
      ((directResponse up cfg s).bind Response.permanentAddress).getD s.feed.effectiveUrl := by
  obtain ⟨s₁, s₂, hl, hf, hc⟩ := processing_of_durable h
  have hfeed : s₁.feed = s.feed := by
    rw [load_ok hl]
    rfl
  have hdirect : directResponse up cfg s₁ = directResponse up cfg s := by
    rw [load_ok hl]
    rfl
  rw [(commit_ok hc).1, show s₂ = (fetchOne up cfg now s₁).2 by rw [hf], ← hfeed, ← hdirect]
  rcases hp : prepare up now s₁ with ⟨exc | weekly, t₁⟩
  · rw [fetchOne, Act.bind_of_error hp] at hf
    cases hf
  rcases hr : contact up cfg t₁ with ⟨r, t⟩
  have hremember : ∀ o : Option Headers, (o.elim t.feed fun headers ↦
      rememberValidators headers t.feed).effectiveUrl = t.feed.effectiveUrl := by
    intro o
    cases o <;> rfl
  rw [fetchOne_column cfg (p := Feed.effectiveUrl) (fun _ _ ↦ rfl) (fun _ _ ↦ rfl)
    (fun _ _ ↦ rfl) hp, hr, hremember, contact_effectiveUrl hr, (prepare_ok hp).2,
    directResponse_prepared]
  rfl

/-- So the address has passed the guard when it is another one. -/
theorem processing_address (h : isDurable (processing up cfg now s) = true) :
    (processing up cfg now s).2.feed.effectiveUrl = s.feed.effectiveUrl ∨
      Ssrf.accepts up.resolver (processing up cfg now s).2.feed.effectiveUrl = true := by
  rw [processing_effectiveUrl h]
  cases hd : directResponse up cfg s with
  | none => exact .inl rfl
  | some response =>
      rw [Option.bind_some, Response.permanentAddress]
      split
      · exact .inr (directResponse_accepts hd)
      · exact .inl rfl

end

/-! ## The table -/

/-- The URLs of the feed pass the guard without a resolution. -/
structure Feed.Plain (f : Feed) : Prop where
  url : Ssrf.Plain f.url
  effectiveUrl : Ssrf.Plain f.effectiveUrl

theorem Feed.Plain.writeBack {row mine f : Feed} (hf : f.Plain) (hurl : mine.url = row.url)
    (haddress : mine.effectiveUrl = row.effectiveUrl ∨ Ssrf.Plain mine.effectiveUrl) :
    (Feed.writeBack row mine f).Plain := by
  refine ⟨?_, ?_⟩
  · show Ssrf.Plain (if mine.url = row.url then f.url else mine.url)
    rw [if_pos hurl]
    exact hf.url
  · show Ssrf.Plain (if mine.effectiveUrl = row.effectiveUrl then f.effectiveUrl
      else mine.effectiveUrl)
    split
    · exact hf.effectiveUrl
    · rename_i hne
      exact haddress.resolve_left hne

theorem Cluster.Step.plain {cfg : Settings} {s s' : Cluster} {a : Action} (hs : s.Step cfg a s')
    (h : ∀ f ∈ s.table, f.Plain) : ∀ f ∈ s'.table, f.Plain := by
  intro g hg
  cases hs with
  | claim _ _ htable _ _ =>
      obtain ⟨f, hf, -, ⟨-, rfl⟩ | ⟨-, leaseUntil, -, rfl⟩⟩ := mem_claimDueFeeds htable hg
      · exact h _ hf
      · exact ⟨(h f hf).url, (h f hf).effectiveUrl⟩
  | finish _ _ _ htable _ _ =>
      rcases mem_settle (htable ▸ hg) with hg | ⟨hd, f, hf, -, rfl⟩
      · exact h g hg
      · refine (h f hf).writeBack (congrArg Prod.snd (processing_written hd).2) ?_
        exact (processing_address hd).imp_right Ssrf.plain_of_accepts
  | load _ _ _ _ htable _ _ => exact h g (htable ▸ hg)
  | abandon _ htable _ _ => exact h g (htable ▸ hg)
  | crash _ htable _ _ => exact h g (htable ▸ hg)

namespace Service

variable {cfg : Settings} {retention : RetentionSettings} {s s' : Service} {a : ServiceAction}

theorem Step.plain (hs : s.Step cfg retention a s') (h : ∀ f ∈ s.cluster.table, f.Plain) :
    ∀ f ∈ s'.cluster.table, f.Plain := by
  cases hs with
  | work hstep _ => exact hstep.plain h
  | commit hstep _ _ _ => exact hstep.plain h
  | @register u now dbNow _ =>
      intro f hf
      rcases List.mem_append.mp hf with hf | hf
      · exact h f hf
      · obtain ⟨rfl, -⟩ := insertFeed_eq_some (Option.mem_toList.mp hf)
        exact ⟨u.plain, u.plain⟩
  | remove _ => exact fun f hf ↦ h f (List.mem_filter.mp hf).1
  | @reactivate row now _ _ _ =>
      intro g hg
      obtain ⟨f, hf, rfl⟩ := List.mem_map.mp hg
      split
      · refine (h f hf).writeBack ?_ (.inl ?_)
        · unfold reactivateFeed
          split <;> rfl
        · unfold reactivateFeed
          split <;> rfl
      · exact h f hf
  | load _ => exact h
  | beginSweep => exact h
  | sweep _ _ => exact h
  | rollback _ _ => exact h

/-- No run of the service puts a URL into the database that the guard rejects by its text. -/
theorem stored_urls_plain {as : List ServiceAction} (h : ∀ f ∈ s.cluster.table, f.Plain)
    (hr : Run (Step cfg retention) s as s') : ∀ f ∈ s'.cluster.table, f.Plain :=
  hr.invariant (P := fun t ↦ ∀ f ∈ t.cluster.table, f.Plain) (fun _ _ _ ht hs ↦ hs.plain ht) h

open Cluster (fresh leased firstClaim)

/-- The address that a feed has moved to for good is stored. -/
theorem moved_plain : ∃ t, tended.Step {} {} (.commit .year2000
      (firstClaim (some (leased (fresh 1)))) (redirecting movedTwice) (.start [] 1) []) t ∧
    (∃ f ∈ t.cluster.table, f.effectiveUrl = "http://newer.example/feed".toList) ∧
    ∀ f ∈ t.cluster.table, f.Plain := by
  have hdurable : isDurable ((firstClaim (some (leased (fresh 1)))).run {} (redirecting movedTwice)
      (.start [] 1) [] (leased (fresh 1))) = true := by decide +kernel
  obtain ⟨t, ht, htable⟩ := tended_sound.commit_enabled (List.mem_singleton.mpr rfl) rfl hdurable
    ⟨_, List.mem_singleton.mpr rfl, rfl⟩
  have hplain : Ssrf.Plain "http://a.example/feed".toList :=
    (Ssrf.plain_iff (fun _ ↦ .ok []) _).mp (by decide +kernel)
  refine ⟨t, ht, ?_, stored_urls_plain (fun f hf ↦ ?_) (Run.single ht)⟩
  · rw [htable]
    decide +kernel
  · cases List.mem_singleton.mp hf
    exact ⟨hplain, hplain⟩

end Service

end FeedgateFetcher
