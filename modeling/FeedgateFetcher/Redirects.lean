import FeedgateFetcher.Fetcher.Aftermath

/-!
# Permanent and temporary redirects

The address that a feed has after redirects is decided once, from the whole
history and the final URL.  A single 301 anywhere in the chain makes the code
take the final URL for permanent, whatever came after it.
-/

namespace FeedgateFetcher

open Python Logic

/-! ## Chains -/

/-- A redirect that was followed. -/
structure Hop where
  statusCode : Nat
  target : Text
deriving DecidableEq, Repr

/-- The URL at the end of the chain. -/
def finalUrl : Text → List Hop → Text
  | url, [] => url
  | _, hop :: hops => finalUrl hop.target hops

/-- The URL that the 301s at the beginning of the chain lead to. -/
def permanentUrl : Text → List Hop → Text
  | url, [] => url
  | url, hop :: hops => if hop.statusCode = 301 then permanentUrl hop.target hops else url

/-- Some hop of the chain is a 301. -/
def MovedPermanently (hops : List Hop) : Prop := ∃ hop ∈ hops, hop.statusCode = 301

instance (hops : List Hop) : Decidable (MovedPermanently hops) :=
  inferInstanceAs (Decidable (∃ hop ∈ hops, hop.statusCode = 301))

theorem finalUrl_congr {hops : List Hop} (h : hops ≠ []) (url url' : Text) :
    finalUrl url hops = finalUrl url' hops := by
  cases hops with
  | nil => exact absurd rfl h
  | cons hop hops => rfl

theorem permanentUrl_of_not_moved {hops : List Hop} (h : ¬MovedPermanently hops) (url : Text) :
    permanentUrl url hops = url := by
  cases hops with
  | nil => rfl
  | cons hop hops => exact if_neg fun hc ↦ h ⟨hop, List.mem_cons_self, hc⟩

/-- When all hops are permanent the chain is followed to its end. -/
theorem permanentUrl_of_all {hops : List Hop} (h : ∀ hop ∈ hops, hop.statusCode = 301)
    (url : Text) : permanentUrl url hops = finalUrl url hops := by
  induction hops generalizing url with
  | nil => rfl
  | cons hop hops ih =>
      rw [permanentUrl, if_pos (h hop List.mem_cons_self), finalUrl]
      exact ih (fun other hother ↦ h other (List.mem_cons_of_mem hop hother)) hop.target

/-! ## The chain that the client follows -/

/-- The redirects that `sendHandlingRedirects` follows. -/
def redirectHops (up : Upstream) (headers : List (Text × Text)) :
    (remaining : Nat) → (url : Text) → RequestLog → List Hop
  | 0, _, _ => []
  | n + 1, url, log =>
    match guardedRequest up ⟨url, headers⟩ log with
    | (.error _, _) => []
    | (.ok a, log) =>
      if a.hasRedirectLocation then
        match up.httpxRedirect url a with
        | .error _ => []
        | .ok next => ⟨a.statusCode, next⟩ :: redirectHops up headers n next log
      else []

/-- The redirects on the direct path to the feed. -/
def redirectChain (up : Upstream) (cfg : Settings) (s : FetchState) : List Hop :=
  match up.httpxUrl s.feed.effectiveUrl with
  | .error _ => []
  | .ok url => redirectHops up (requestHeaders cfg s.feed) 21 url s.requests

section

variable {up : Upstream} {cfg : Settings} {now : Datetime} {weekly : Nat} {s s₁ : FetchState}
  {headers : List (Text × Text)} {response : Response}

/-- The history of a response is the chain that led to it. -/
theorem sendHandlingRedirects_hops {n : Nat} {url : Text} {history : List Nat}
    {log log' : RequestLog}
    (h : sendHandlingRedirects up headers n url history log = (.ok response, log')) :
    response.history = history ++ (redirectHops up headers n url log).map Hop.statusCode ∧
      response.url = finalUrl url (redirectHops up headers n url log) := by
  induction n generalizing url history log with
  | zero => cases h
  | succ n ih =>
      rw [sendHandlingRedirects] at h
      rw [redirectHops]
      rcases hg : guardedRequest up ⟨url, headers⟩ log with ⟨exc | a, log₁⟩
      · rw [Act.bind_of_error hg] at h
        cases h
      rw [Act.bind_of_ok hg] at h
      dsimp only at h ⊢
      cases hloc : a.hasRedirectLocation with
      | false =>
          rw [hloc] at h
          cases h
          exact ⟨(List.append_nil history).symm, rfl⟩
      | true =>
          rw [hloc, if_pos rfl] at h
          rw [if_pos rfl]
          cases hnext : up.httpxRedirect url a with
          | error exc =>
              rw [hnext] at h
              cases h
          | ok next =>
              rw [hnext, Act.ofExcept_ok_bind_apply] at h
              cases hb : a.brokenOff with
              | some exc =>
                  rw [hb] at h
                  cases h
              | none =>
                  rw [hb] at h
                  obtain ⟨hhistory, hurl⟩ := ih h
                  refine ⟨?_, hurl⟩
                  rw [hhistory, List.append_assoc]
                  rfl

/-- A direct answer comes from the end of the chain. -/
theorem directResponse_chain (h : directResponse up cfg s = some response) :
    response.history = (redirectChain up cfg s).map Hop.statusCode ∧
      (redirectChain up cfg s ≠ [] →
        response.url = finalUrl s.feed.effectiveUrl (redirectChain up cfg s)) := by
  obtain ⟨host, t, -, hs, -⟩ := contact_of_direct h
  obtain ⟨hstream, -⟩ := onRequests_eq hs
  rw [httpxStream] at hstream
  unfold redirectChain
  cases hu : up.httpxUrl s.feed.effectiveUrl with
  | error exc =>
      rw [hu] at hstream
      cases hstream
  | ok url =>
      rw [hu, Act.ofExcept_ok_bind_apply] at hstream
      obtain ⟨hhistory, hurl⟩ := sendHandlingRedirects_hops hstream
      exact ⟨hhistory, fun hne ↦ hurl.trans (finalUrl_congr hne _ _)⟩

theorem moved_iff_history (h : directResponse up cfg s = some response) :
    (response.history.any fun code ↦ code == 301) = true ↔
      MovedPermanently (redirectChain up cfg s) := by
  rw [(directResponse_chain h).1, List.any_map, List.any_eq_true]
  simp only [Function.comp_apply, beq_iff_eq]
  rfl

/-! ## The address afterwards -/

/-- The address that a successful direct answer leaves. -/
theorem fetchOne_effectiveUrl (hp : prepare up now s = (.ok weekly, s₁))
    (hr : directResponse up cfg s = some response)
    (h2 : 200 ≤ response.statusCode ∧ response.statusCode < 300) :
    (fetchOne up cfg now s).2.feed.effectiveUrl =
      if MovedPermanently (redirectChain up cfg s) then
        finalUrl s.feed.effectiveUrl (redirectChain up cfg s)
      else s.feed.effectiveUrl := by
  have hr₁ : directResponse up cfg s₁ = some response := by
    rw [(prepare_ok hp).2, directResponse_prepared, hr]
  rcases hc : contact up cfg s₁ with ⟨r, t⟩
  have haddress := contact_effectiveUrl hc
  have hcolumn := fetchOne_column cfg (p := Feed.effectiveUrl) (fun _ _ ↦ rfl)
    (fun _ _ ↦ rfl) (fun _ _ ↦ rfl) hp
  have hremember : ∀ o : Option Headers, (o.elim t.feed fun headers ↦
      rememberValidators headers t.feed).effectiveUrl = t.feed.effectiveUrl := by
    intro o
    cases o <;> rfl
  have hkeep : s₁.feed.effectiveUrl = s.feed.effectiveUrl := by
    rw [(prepare_ok hp).2]
    rfl
  rw [hcolumn, hc, hremember, haddress, hr₁, hkeep, Option.bind_some]
  unfold Response.permanentAddress
  by_cases hm : MovedPermanently (redirectChain up cfg s)
  · have hne : redirectChain up cfg s ≠ [] := by
      obtain ⟨hop, hmem, -⟩ := hm
      exact List.ne_nil_of_mem hmem
    rw [if_pos hm, if_pos ⟨h2, (moved_iff_history hr).mpr hm⟩]
    exact (directResponse_chain hr).2 hne
  · rw [if_neg hm, if_neg fun hc ↦ hm ((moved_iff_history hr).mp hc.2)]
    rfl

/-- The address follows the leading 301s exactly when there is no 301 in the chain, or the
leading 301s lead to the URL that answers. -/
theorem fetchOne_permanent_iff (hp : prepare up now s = (.ok weekly, s₁))
    (hr : directResponse up cfg s = some response)
    (h2 : 200 ≤ response.statusCode ∧ response.statusCode < 300) :
    (fetchOne up cfg now s).2.feed.effectiveUrl =
        permanentUrl s.feed.effectiveUrl (redirectChain up cfg s) ↔
      ¬MovedPermanently (redirectChain up cfg s) ∨
        permanentUrl s.feed.effectiveUrl (redirectChain up cfg s) =
          finalUrl s.feed.effectiveUrl (redirectChain up cfg s) := by
  rw [fetchOne_effectiveUrl hp hr h2]
  by_cases hm : MovedPermanently (redirectChain up cfg s)
  · rw [if_pos hm, or_iff_right (not_not.mpr hm)]
    exact eq_comm
  · rw [if_neg hm, permanentUrl_of_not_moved hm]
    exact iff_of_true rfl (.inl hm)

end

/-- A successful direct answer leaves the URL that the leading 301s of the chain lead to exactly
when the chain has no 301, or these lead to the URL that answers; the registered URL stays. -/
theorem redirects_move_permanently_iff (up : Upstream) (cfg : Settings) (now : Datetime)
    (s : FetchState) :
    (fetchOne up cfg now s).2.feed.url = s.feed.url ∧
    ∀ (weekly : Nat) (s₁ : FetchState) (response : Response),
      prepare up now s = (.ok weekly, s₁) → directResponse up cfg s = some response →
      200 ≤ response.statusCode ∧ response.statusCode < 300 →
        ((fetchOne up cfg now s).2.feed.effectiveUrl =
            permanentUrl s.feed.effectiveUrl (redirectChain up cfg s) ↔
          ¬MovedPermanently (redirectChain up cfg s) ∨
            permanentUrl s.feed.effectiveUrl (redirectChain up cfg s) =
              finalUrl s.feed.effectiveUrl (redirectChain up cfg s)) := by
  constructor
  · exact congrArg Prod.snd (fetchOne_registration up cfg now s)
  · intro weekly s₁ response hp hr h2
    exact fetchOne_permanent_iff hp hr h2

/-- An origin that redirects the `n`-th request with the `n`-th of these hops, and serves a
document after them. -/
def redirecting (hops : List Hop) : Upstream :=
  { Upstream.silent with
    httpxTransport := fun log _ ↦ match hops[log.length]? with
      | some hop => .ok ⟨hop.statusCode, [("Location".toList, hop.target)], [], none⟩
      | none => .ok ⟨200, [], [], none⟩
    httpxRedirect := fun _ a ↦ match a.headers.get "location".toList with
      | some target => .ok target
      | none => .error .httpError
    feedparser := fun _ ↦ some {} }

/-- A feed that moved for good, to an address that is redirected for now. -/
def movedThenDetoured : List Hop :=
  [⟨301, "http://new.example/feed".toList⟩, ⟨302, "http://cdn.example/tmp".toList⟩]

/-- The temporary address is stored. -/
theorem temporaryAddress_stored :
    redirectChain (redirecting movedThenDetoured) {} .firstFetch = movedThenDetoured ∧
    directResponse (redirecting movedThenDetoured) {} .firstFetch =
      some ⟨200, [], [], none, "http://cdn.example/tmp".toList, [301, 302]⟩ ∧
    (fetchOne (redirecting movedThenDetoured) {} .year2000 .firstFetch).1 = .ok ⟨⟩ ∧
    (fetchOne (redirecting movedThenDetoured) {} .year2000 .firstFetch).2.feed.effectiveUrl =
      "http://cdn.example/tmp".toList ∧
    permanentUrl "http://a.example/feed".toList movedThenDetoured =
      "http://new.example/feed".toList ∧
    (fetchOne (redirecting movedThenDetoured) {} .year2000 .firstFetch).2.feed.effectiveUrl ≠
      permanentUrl FetchState.firstFetch.feed.effectiveUrl
        (redirectChain (redirecting movedThenDetoured) {} .firstFetch) := by
  decide +kernel

/-- A feed that moved for good, twice. -/
def movedTwice : List Hop :=
  [⟨301, "http://new.example/feed".toList⟩, ⟨301, "http://newer.example/feed".toList⟩]

/-- The last address is stored. -/
theorem permanentAddress_stored :
    (fetchOne (redirecting movedTwice) {} .year2000 .firstFetch).2.feed.effectiveUrl =
      permanentUrl "http://a.example/feed".toList
        (redirectChain (redirecting movedTwice) {} .firstFetch) := by
  have hprepare : (prepare (redirecting movedTwice) .year2000 .firstFetch).1 = .ok 0 := by
    decide +kernel
  have hr : directResponse (redirecting movedTwice) {} .firstFetch =
      some ⟨200, [], [], none, "http://newer.example/feed".toList, [301, 301]⟩ := by
    decide +kernel
  have hmoves := (redirects_move_permanently_iff (redirecting movedTwice) {} .year2000
    .firstFetch).2 0 _ _ (Prod.ext hprepare rfl) hr (by decide)
  exact hmoves.mpr (.inr (permanentUrl_of_all (by decide +kernel) _))

end FeedgateFetcher
