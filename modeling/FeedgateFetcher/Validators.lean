import FeedgateFetcher.Fetcher.Aftermath
import FeedgateFetcher.Guarding
import FeedgateFetcher.Runs

/-!
# Conditional requests

A document replaces the validators that it carries and no others, so the row
remembers, for each of the two headers, the last document that carried it.
-/

namespace FeedgateFetcher

open Python Logic

/-! ## What the documents carried -/

/-- The header in the last document that carried it; the documents are listed newest first. -/
def latest (name : Text) : List Headers → Option Text
  | [] => none
  | headers :: older => (headers.get name).or (latest name older)

/-- The newest document has the header that was carried last exactly when it carries one. -/
theorem get_eq_latest_iff (name : Text) (newest : Headers) (older : List Headers) :
    newest.get name = some ((latest name (newest :: older)).getD []) ↔
      (newest.get name).isSome := by
  rw [latest]
  cases newest.get name with
  | none => exact iff_of_false nofun nofun
  | some v => exact iff_of_true rfl rfl

/-- The conditional header for these validators. -/
def conditionalHeaders (etag lastModified : Option Text) : List (Text × Text) :=
  if truthy etag then [("If-None-Match".toList, etag.getD [])]
  else if truthy lastModified then [("If-Modified-Since".toList, lastModified.getD [])]
  else []

theorem requestHeaders_eq (cfg : Settings) (f : Feed) :
    requestHeaders cfg f =
      ("User-Agent".toList, cfg.fetchUserAgent) :: conditionalHeaders f.etag f.lastModified := rfl

/-- The document with these headers delivered the validator. -/
def Headers.Delivered (headers : Headers) (validator : Text × Text) : Prop :=
  validator.1 = "If-None-Match".toList ∧ headers.get "etag".toList = some validator.2 ∨
    validator.1 = "If-Modified-Since".toList ∧
      headers.get "last-modified".toList = some validator.2

instance (headers : Headers) (validator : Text × Text) : Decidable (headers.Delivered validator) :=
  inferInstanceAs (Decidable (_ ∨ _))

/-- The newest document carried the header which the next validator comes from. -/
structure CarriesValidator (newest : Headers) (older : List Headers) : Prop where
  etag : truthy (latest "etag".toList (newest :: older)) = true →
    (newest.get "etag".toList).isSome = true
  lastModified : truthy (latest "etag".toList (newest :: older)) = false →
    truthy (latest "last-modified".toList (newest :: older)) = true →
      (newest.get "last-modified".toList).isSome = true

/-- Only then it delivered the validator that is sent. -/
theorem delivered_latest_iff (newest : Headers) (older : List Headers) :
    (∀ v ∈ conditionalHeaders (latest "etag".toList (newest :: older))
        (latest "last-modified".toList (newest :: older)), newest.Delivered v) ↔
      CarriesValidator newest older := by
  have hne : "If-None-Match".toList ≠ "If-Modified-Since".toList := by decide
  unfold conditionalHeaders
  cases he : truthy (latest "etag".toList (newest :: older)) with
  | true =>
      rw [if_pos rfl, List.forall_mem_singleton]
      constructor
      · intro h
        have hget := (h.resolve_right fun hm ↦ hne hm.1).2
        refine ⟨fun _ ↦ (get_eq_latest_iff _ _ older).mp hget, fun hf ↦ ?_⟩
        cases he.symm.trans hf
      · exact fun h ↦ .inl ⟨rfl, (get_eq_latest_iff _ _ older).mpr (h.etag he)⟩
  | false =>
      rw [if_neg Bool.false_ne_true]
      cases hm : truthy (latest "last-modified".toList (newest :: older)) with
      | true =>
          rw [if_pos rfl, List.forall_mem_singleton]
          constructor
          · intro h
            have hget := (h.resolve_left fun he ↦ hne he.1.symm).2
            refine ⟨fun ht ↦ ?_, fun _ _ ↦ (get_eq_latest_iff _ _ older).mp hget⟩
            cases he.symm.trans ht
          · exact fun h ↦ .inr ⟨rfl, (get_eq_latest_iff _ _ older).mpr (h.lastModified he hm)⟩
      | false =>
          rw [if_neg Bool.false_ne_true]
          refine iff_of_true (fun _ hv ↦ nomatch hv) ⟨fun ht ↦ ?_, fun _ ht ↦ ?_⟩
          · cases he.symm.trans ht
          · cases hm.symm.trans ht

/-! ## What the row remembers -/

/-- The row remembers the last document that carried an ETag, and the last one that carried a
date. -/
structure Remembers (documents : List Headers) (f : Feed) : Prop where
  etag : f.etag = latest "etag".toList documents
  lastModified : f.lastModified = latest "last-modified".toList documents

/-- The headers of the document that a call stores, if it stores one. -/
def storedDocument (up : Upstream) (cfg : Settings) (now : Datetime) (s : FetchState) :
    Option Headers :=
  match prepare up now s with
  | (.error _, _) => none
  | (.ok _, s₁) => storedHeaders up cfg s (contact up cfg s₁).1

section

variable {up : Upstream} {cfg : Settings} {now : Datetime} {s : FetchState}
  {documents : List Headers} {f : Feed}

theorem Remembers.rememberValidators (h : Remembers documents f) (headers : Headers) :
    Remembers (headers :: documents) (rememberValidators headers f) :=
  ⟨congrArg (headers.get "etag".toList).or h.etag,
    congrArg (headers.get "last-modified".toList).or h.lastModified⟩

theorem Remembers.of_eq {g : Feed} (h : Remembers documents f)
    (hg : (g.etag, g.lastModified) = (f.etag, f.lastModified)) : Remembers documents g :=
  ⟨(congrArg Prod.fst hg).trans h.etag, (congrArg Prod.snd hg).trans h.lastModified⟩

/-- A call keeps the row up to date. -/
theorem Remembers.fetchOne (h : Remembers documents s.feed) (up : Upstream) (cfg : Settings)
    (now : Datetime) :
    Remembers ((storedDocument up cfg now s).toList ++ documents)
      (fetchOne up cfg now s).2.feed := by
  have hprepare := keeps_prepare (p := fun t ↦ (t.feed.etag, t.feed.lastModified)) up now
    (fun _ ↦ rfl) (fun _ _ ↦ rfl) s
  unfold storedDocument
  rcases hp : prepare up now s with ⟨exc | weekly, s₁⟩
  · rw [hp] at hprepare
    rw [FeedgateFetcher.fetchOne, Act.bind_of_error hp]
    exact h.of_eq hprepare
  · rw [hp] at hprepare
    have hcolumn := fetchOne_column cfg (p := fun f ↦ (f.etag, f.lastModified))
      (fun _ _ ↦ rfl) (fun _ _ ↦ rfl) (fun _ _ ↦ rfl) hp
    have hcontact : Remembers documents (contact up cfg s₁).2.feed :=
      (h.of_eq hprepare).of_eq (congrArg (fun a : Account ↦ (a.feed.etag, a.feed.lastModified))
        (keeps_account_contact up cfg s₁))
    dsimp only
    cases hd : storedHeaders up cfg s (contact up cfg s₁).1 with
    | none =>
        rw [hd] at hcolumn
        exact hcontact.of_eq hcolumn
    | some headers =>
        rw [hd] at hcolumn
        exact (hcontact.rememberValidators headers).of_eq hcolumn

end

/-! ## Runs -/

/-- The headers of the document that the operation stores, if it stores one for good. -/
def Operation.document (cfg : Settings) (r : Tracked) : Operation → Option Headers
  | .process up now session domains =>
    match load up (r.loaded session domains) with
    | (.error _, _) => none
    | (.ok _, s) =>
      if isDurable (processing up cfg now (r.loaded session domains)) then
        storedDocument up cfg now s
      else none
  | _ => none

/-- Every operation keeps the row up to date. -/
theorem Remembers.apply {cfg : Settings} {r : Tracked} {documents : List Headers}
    (h : Remembers documents r.feed) (op : Operation) :
    Remembers ((op.document cfg r).toList ++ documents) (op.apply cfg r).feed := by
  cases op with
  | claim now scan =>
      change Remembers documents ((Operation.claim now scan).inMemory cfg r).feed
      rcases claim_cases cfg r now scan with hclaim | ⟨_, hclaim⟩
      · rw [hclaim]
        exact h
      · rw [hclaim]
        exact h.of_eq rfl
  | reactivate now =>
      refine h.of_eq ?_
      change ((reactivateFeed now r).feed.etag, (reactivateFeed now r).feed.lastModified) = _
      rw [reactivateFeed_eq cfg.brokenThreshold cfg.deadDurationDays]
      rfl
  | process up now session domains =>
      have hrun := processing_run up cfg now (r.loaded session domains)
      change Remembers _ (processFeed up cfg now (r.loaded session domains)).feed
      unfold Operation.document
      dsimp only
      cases hd : isDurable (processing up cfg now (r.loaded session domains)) with
      | false =>
          rw [processFeed_feed_of_not_durable hd]
          rcases load up (r.loaded session domains) with ⟨exc | _, s₁⟩ <;> exact h
      | true =>
          rw [processFeed_of_durable hd]
          generalize processing up cfg now (r.loaded session domains) = run at hd hrun ⊢
          obtain ⟨result, t⟩ := run
          dsimp only at hrun ⊢
          cases hrun with
          | unloaded hl => cases hd
          | raised hl hf => cases hd
          | @finished s₁ s₂ t result hl hf hc =>
              have hloaded : Remembers documents s₁.feed := by
                rw [load_frame hl]
                exact h
              have hcall := hloaded.fetchOne up cfg now
              rw [hf] at hcall
              rw [hl, commit_frame hc]
              exact hcall

/-- The row, and the headers of the documents stored for it, newest first. -/
structure ValidatorRun where
  row : Tracked
  documents : List Headers

namespace ValidatorRun

def registered (id : Int) (url : Text) (now dbNow : Datetime) : ValidatorRun where
  row := ⟨Feed.registered id url now dbNow, []⟩
  documents := []

def next (cfg : Settings) (op : Operation) (s : ValidatorRun) : ValidatorRun where
  row := op.apply cfg s.row
  documents := (op.document cfg s.row).toList ++ s.documents

/-- One operation after the other. -/
def Step (cfg : Settings) (s : ValidatorRun) (op : Operation) (s' : ValidatorRun) : Prop :=
  s' = s.next cfg op

theorem remembers {cfg : Settings} {id : Int} {url : Text} {now dbNow : Datetime}
    {ops : List Operation} {s : ValidatorRun}
    (h : Run (Step cfg) (registered id url now dbNow) ops s) :
    Remembers s.documents s.row.feed := by
  refine h.invariant (P := fun s ↦ Remembers s.documents s.row.feed) ?_ ⟨rfl, rfl⟩
  rintro t op _ ht rfl
  exact ht.apply op

/-- In every run each request of the next call carries the ETag that was delivered last, or else
the date that was delivered last; the newest document delivered it exactly when it carried the
header in question. -/
theorem validators_latest (cfg : Settings) (id : Int) (url : Text) (now dbNow : Datetime)
    (ops : List Operation) (s : ValidatorRun)
    (h : Run (Step cfg) (registered id url now dbNow) ops s) :
    (∀ (up : Upstream) (next : Datetime) (session : Session) (domains : List Text),
      ∀ r ∈ (fetchOne up cfg next (s.row.loaded session domains)).2.requests,
        r.headers = ("User-Agent".toList, cfg.fetchUserAgent) ::
          conditionalHeaders (latest "etag".toList s.documents)
            (latest "last-modified".toList s.documents)) ∧
    ∀ (newest : Headers) (older : List Headers), s.documents = newest :: older →
      ((∀ v ∈ conditionalHeaders (latest "etag".toList s.documents)
          (latest "last-modified".toList s.documents), newest.Delivered v) ↔
        CarriesValidator newest older) := by
  have hrow := remembers h
  constructor
  · intro up next session domains
    rw [← hrow.etag, ← hrow.lastModified, ← requestHeaders_eq]
    exact fetchOne_headers up cfg next (s.row.loaded session domains) rfl
  · intro newest older hdocuments
    rw [hdocuments]
    exact delivered_latest_iff newest older

/-- A fetch of the feed `http://a.example/feed` that is answered by a document with these
headers. -/
def documentWith (headers : Headers) : Operation :=
  .process { Upstream.answering ⟨200, headers, [], none⟩ with feedparser := fun _ ↦ some {} }
    .year2000 (.start [] 1) []

def tagged : Headers := [("ETag".toList, "v1".toList)]

def stamped : Headers := [("Last-Modified".toList, "Sat, 01 Jan 2000 00:00:00 GMT".toList)]

/-- A feed whose first document had an ETag. -/
def afterTag : ValidatorRun :=
  (registered 1 "http://a.example/feed".toList .year2000 .year2000).next {} (documentWith tagged)

/-- A feed whose second document had a date instead. -/
def afterDate : ValidatorRun := afterTag.next {} (documentWith stamped)

theorem afterTag_run : Run (Step {}) (registered 1 "http://a.example/feed".toList .year2000
    .year2000) [documentWith tagged] afterTag := Run.nil.snoc rfl

/-- The ETag of the replaced document is sent on. -/
theorem replacedTag_sent :
    Run (Step {}) (registered 1 "http://a.example/feed".toList .year2000 .year2000)
      [documentWith tagged, documentWith stamped] afterDate ∧
    afterDate.documents = [stamped, tagged] ∧
    requestHeaders {} afterDate.row.feed =
      [("User-Agent".toList, Settings.fetchUserAgent {}),
        ("If-None-Match".toList, "v1".toList)] ∧
    ¬stamped.Delivered ("If-None-Match".toList, "v1".toList) :=
  ⟨afterTag_run.snoc rfl, by decide +kernel, by decide +kernel, by decide +kernel⟩

/-- After one document its own ETag is sent. -/
theorem currentTag_sent : afterTag.documents = [tagged] ∧
    ∀ v ∈ conditionalHeaders (latest "etag".toList afterTag.documents)
      (latest "last-modified".toList afterTag.documents), tagged.Delivered v := by
  have hdocuments : afterTag.documents = [tagged] := by decide +kernel
  refine ⟨hdocuments, ?_⟩
  exact ((validators_latest {} 1 _ _ _ _ afterTag afterTag_run).2 tagged [] hdocuments).mpr
    ⟨by decide +kernel, by decide +kernel⟩

end ValidatorRun

end FeedgateFetcher
