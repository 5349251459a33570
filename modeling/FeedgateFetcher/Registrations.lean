import FeedgateFetcher.Api.Registry

/-!
# Registrations

Registration is idempotent, whatever other requests do in the meantime, as long as
no feed is deleted between the two statements of a registration of its URL.
-/

namespace FeedgateFetcher

open Python Logic Table

namespace Registry

variable {ι : Type*} [DecidableEq ι]

/-- The requests have come in and nothing has been done yet. -/
structure Initial (s : Registry ι) : Prop where
  urls : Keyed Feed.url s.table
  history : s.history = []
  phase : ∀ i, s.phase i = .received

/-- The request, when its `INSERT` has found the URL taken, does not get to its `SELECT` after a
delete that was committed since and has left the URL free. -/
def Undisturbed (requests : ι → ApiRequest) (s : Registry ι) (i : ι) : Prop :=
  ∀ u, requests i = .create u → s.phase i = .inserted none → ¬s.Vacated u.url

/-- A step that meets the condition. -/
def UndisturbedStep (requests : ι → ApiRequest) (s : Registry ι) (i : ι) (t : Registry ι) : Prop :=
  s.Undisturbed requests i ∧ Step requests s i t

/-- Registration is idempotent in a run to `s`. -/
structure Idempotent (requests : ι → ApiRequest) (s₀ : Registry ι) (steps : List ι)
    (s : Registry ι) : Prop where
  /-- What has ended has ended well. -/
  answers : ∀ i u r, requests i = .create u → s.phase i = .ended r →
    ∃ f, normalizeUrl u.raw = .ok f.url ∧ (r = ⟨200, some f⟩ ∨ r = ⟨201, some f⟩)
  /-- What has not ended can go on, or waits for a request that can. -/
  progress : ∀ i u, requests i = .create u → (∃ r, s.phase i = .ended r) ∨
    ∃ j t, Step requests s j t ∧ (j = i ∨ ∃ f ∈ (s.phase j).work.inserted, f.url = u.url)
  bounded : ∀ i, steps.count i ≤ 3
  unique : Keyed Feed.url s.table ∧ ∀ i, Keyed Feed.url (s.visible i)
  /-- A feed that is returned is returned again as long as it is not deleted. -/
  sameId : ∀ {i j u v f g steps₁ steps₂ s₁}, requests i = .create u → requests j = .create v →
    u.url = v.url → Run (Step requests) s₀ steps₁ s₁ → Run (Step requests) s₁ steps₂ s →
    (s₁.phase i).answer = some f → (s₁.phase j).answer = none → (s.phase j).answer = some g →
    Change.deleted f ∉ s.history → g.id = f.id

/-! ## What holds in every run -/

variable {requests : ι → ApiRequest} {s t : Registry ι} {i j : ι} {p : Phase} {r : ApiResponse}

theorem phase_advance_self : (s.advance i p).phase i = p := Function.update_self ..

theorem phase_advance_of_ne (h : j ≠ i) : (s.advance i p).phase j = s.phase j :=
  Function.update_of_ne h ..

theorem phase_commit_self : (s.commit i r).phase i = .ended r := Function.update_self ..

theorem phase_commit_of_ne (h : j ≠ i) : (s.commit i r).phase j = s.phase j :=
  Function.update_of_ne h ..

theorem history_commit : (s.commit i r).history = s.changes i ++ s.history := rfl

theorem shared_advance (n : Int) :
    ({ s with nextId := n }.advance i p).shared =
      ⟨s.table, Function.update s.shared.work i p.work⟩ := by
  rw [shared, advance]
  exact congrArg (SharedTable.mk s.table) (Function.comp_update Phase.work s.phase i p)

theorem shared_commit : (s.commit i r).shared =
    ⟨s.visible i, Function.update s.shared.work i .none⟩ := by
  rw [shared, commit]
  exact congrArg (SharedTable.mk (s.visible i))
    (Function.comp_update Phase.work s.phase i (.ended r))

/-- What is known of the rows and the requests between two steps. -/
structure Sound (requests : ι → ApiRequest) (s : Registry ι) : Prop where
  urls : s.shared.Unique Feed.id Feed.url
  vacant : ∀ url, s.Vacated url → ∀ f ∈ s.table, f.url ≠ url
  /-- The URL that an `INSERT` has found taken is taken, until it is vacated. -/
  conflicted : ∀ i u, requests i = .create u → s.phase i = .inserted none →
    ¬s.Vacated u.url → ∃ f ∈ s.table, f.url = u.url
  answered : ∀ i f, (s.phase i).answer = some f →
    f ∈ s.table ∨ f ∈ (s.phase i).work.inserted ∨ .deleted f ∈ s.history
  phases : ∀ i, (requests i).Admits (s.phase i)

namespace Sound

/-- A step that commits nothing. -/
theorem advance (h : s.Sound requests) (n : Int)
    (hurls : SharedTable.Unique Feed.id Feed.url
      ⟨s.table, Function.update s.shared.work i p.work⟩)
    (hconflict : ∀ u, requests i = .create u → p = .inserted none →
      ∃ f ∈ s.table, f.url = u.url)
    (hanswer : ∀ f, p.answer = some f → f ∈ s.table ∨ f ∈ p.work.inserted)
    (hadmits : (requests i).Admits p) :
    ({ s with nextId := n }.advance i p).Sound requests where
  urls := by
    rw [shared_advance]
    exact hurls
  vacant := h.vacant
  conflicted j u hreq hphase hvacated := by
    by_cases hj : j = i
    · subst hj
      rw [phase_advance_self] at hphase
      exact hconflict u hreq hphase
    · rw [phase_advance_of_ne hj] at hphase
      exact h.conflicted j u hreq hphase hvacated
  answered j f hf := by
    by_cases hj : j = i
    · subst hj
      rw [phase_advance_self] at hf ⊢
      exact (hanswer f hf).imp_right .inl
    · rw [phase_advance_of_ne hj] at hf ⊢
      exact h.answered j f hf
  phases j := by
    by_cases hj : j = i
    · subst hj
      rw [phase_advance_self]
      exact hadmits
    · rw [phase_advance_of_ne hj]
      exact h.phases j

theorem commit (h : s.Sound requests) (hr : (s.phase i).response = some r) :
    (s.commit i r).Sound requests where
  urls := by
    rw [shared_commit]
    exact h.urls.commit
  vacant := by
    rintro url ⟨f, hf⟩ g hg rfl
    rw [history_commit, List.find?_append] at hf
    rcases hc : (s.changes i).find? fun c ↦ c.feed.url = g.url with _ | c
    · rw [hc, Option.none_or] at hf
      obtain ⟨hinserted, -⟩ := changes_none hc
      rcases mem_visible.mp hg with ⟨hg, -⟩ | hg
      · exact h.vacant g.url ⟨f, hf⟩ g hg rfl
      · exact hinserted g hg rfl
    · rw [hc, Option.some_or] at hf
      cases hf
      obtain ⟨hf, hid, hurl, hinserted⟩ := changes_deleted hc
      rcases mem_visible.mp hg with ⟨hg, hkept⟩ | hg
      · exact hkept (h.urls.committed.eq_of_key hf hg hurl ▸ hid)
      · exact hinserted g hg rfl
  conflicted j u hreq hphase hvacated := by
    have hj : j ≠ i := by
      rintro rfl
      rw [phase_commit_self] at hphase
      cases hphase
    rw [phase_commit_of_ne hj] at hphase
    rcases hc : (s.changes i).find? fun c ↦ c.feed.url = u.url with _ | ⟨g | g⟩
    · have hbefore : ¬s.Vacated u.url := by
        rintro ⟨f, hf⟩
        refine hvacated ⟨f, ?_⟩
        rw [history_commit, List.find?_append, hc, Option.none_or]
        exact hf
      obtain ⟨f, hf, hurl⟩ := h.conflicted j u hreq hphase hbefore
      refine ⟨f, mem_visible.mpr (.inl ⟨hf, fun hid ↦ ?_⟩), hurl⟩
      exact (changes_none hc).2 f hf hid hurl
    · obtain ⟨hg, hurl⟩ := changes_registered hc
      exact ⟨g, mem_visible.mpr (.inr hg), hurl⟩
    · refine absurd ⟨g, ?_⟩ hvacated
      rw [history_commit, List.find?_append, hc]
      rfl
  answered j f hf := by
    have hstays : f ∈ s.table → f ∈ s.visible i ∨ Change.deleted f ∈ s.changes i ++ s.history := by
      intro hf
      by_cases hid : f.id ∈ (s.phase i).work.deleted
      · exact .inr (List.mem_append_left _ (mem_changes_deleted hf hid))
      · exact .inl (mem_visible.mpr (.inl ⟨hf, hid⟩))
    by_cases hj : j = i
    · subst hj
      rw [phase_commit_self] at hf
      rcases h.answered j f (Phase.answer_of_response hr hf) with hf | hf | hf
      · exact (hstays hf).imp_right .inr
      · exact .inl (mem_visible.mpr (.inr hf))
      · exact .inr (.inr (List.mem_append_right _ hf))
    · rw [phase_commit_of_ne hj] at hf ⊢
      rcases h.answered j f hf with hf | hf | hf
      · exact (hstays hf).imp_right .inr
      · exact .inr (.inl hf)
      · exact .inr (.inr (List.mem_append_right _ hf))
  phases j := by
    by_cases hj : j = i
    · subst hj
      rw [phase_commit_self]
      exact (h.phases j).commit hr
    · rw [phase_commit_of_ne hj]
      exact h.phases j

/-- A step between phases whose transactions have done the same. -/
theorem idle (h : s.Sound requests) (hwork : p.work = (s.phase i).work) :
    SharedTable.Unique Feed.id Feed.url ⟨s.table, Function.update s.shared.work i p.work⟩ := by
  have hsame : Function.update s.shared.work i p.work = s.shared.work := by
    rw [hwork]
    exact Function.update_eq_self i _
  rw [hsame]
  exact h.urls

omit [DecidableEq ι] in
theorem start (h : s.Initial) : s.Sound requests where
  urls := by
    have hshared : s.shared = ⟨s.table, fun _ ↦ .none⟩ := by
      rw [shared]
      exact congrArg (SharedTable.mk s.table) (funext fun i ↦ by rw [h.phase i]; rfl)
    rw [hshared]
    exact .of_idle h.urls
  vacant url hvacated := by
    obtain ⟨f, hf⟩ := hvacated
    rw [h.history] at hf
    cases hf
  conflicted i u _ hphase := by
    rw [h.phase i] at hphase
    cases hphase
  answered i f hf := by
    rw [h.phase i] at hf
    cases hf
  phases i := by
    rw [h.phase i]
    cases requests i <;> exact trivial

variable {u : PublicUrl} {feedId : Int} {now dbNow : Datetime} {new : Option Feed} {feed : Feed}

theorem insert (h : s.Sound requests) (hreq : requests i = .create u)
    (hphase : s.phase i = .received)
    (hwait : ∀ j ≠ i, ∀ f ∈ (s.phase j).work.inserted, f.url ≠ u.url) :
    ({ s with nextId := s.nextId + 1 }.advance i
      (.inserted (insertFeed (Feed.registered s.nextId u.url now dbNow) (s.visible i)))).Sound
        requests := by
  have hwork : (s.phase i).work = .none := by
    rw [hphase]
    rfl
  rcases hnew : insertFeed (Feed.registered s.nextId u.url now dbNow) (s.visible i) with _ | f
  · refine h.advance _ (h.idle hwork.symm) ?_ (fun _ hf ↦ nomatch hf) ?_
    · intro v hv _
      rw [hreq] at hv
      cases hv
      obtain ⟨g, hg, hurl⟩ := insertFeed_eq_none hnew
      rcases mem_visible.mp hg with ⟨hg, -⟩ | hg
      · exact ⟨g, hg, hurl⟩
      · rw [hwork] at hg
        cases hg
    · rw [hreq]
      intro g hg
      cases hg
  · obtain ⟨hf, hfree⟩ := insertFeed_eq_some hnew
    have hurl : f.url = u.url := congrArg Feed.url hf
    refine h.advance _ ?_ (fun _ _ hp ↦ ?_) (fun _ hg ↦ nomatch hg) ?_
    · have hunique := h.urls.step (.insert (i := i) (r := f) (hurl ▸ hwait) (hf ▸ hfree))
      rw [show s.shared.work i = .none from hwork] at hunique
      exact hunique
    · exact absurd (Phase.inserted.inj hp) (Option.some_ne_none f)
    · rw [hreq]
      intro g hg
      cases hg
      exact hurl

theorem select (h : s.Sound requests) (hreq : requests i = .create u)
    (hphase : s.phase i = .inserted new) :
    (s.advance i (match scalarOne (selectByUrl u.url (s.visible i)) with
      | .ok feed => .selected new feed
      | .error _ => .ended internalServerError)).Sound requests := by
  have hwork : (s.phase i).work = ⟨new.toList, []⟩ := by
    rw [hphase]
    rfl
  have hadmits := h.phases i
  rw [hreq, hphase] at hadmits
  rcases hrows : scalarOne (selectByUrl u.url (s.visible i)) with e | feed
  · refine h.advance s.nextId (h.urls.step .rollback) (fun _ _ hp ↦ nomatch hp)
      (fun _ hf ↦ nomatch hf) ?_
    rw [hreq]
    exact .inl rfl
  · obtain ⟨hmem, hurl⟩ := mem_selectByUrl.mp (scalarOne_mem hrows)
    refine h.advance s.nextId (h.idle hwork.symm) (fun _ _ hp ↦ nomatch hp) ?_ ?_
    · intro f hf
      cases hf
      rcases mem_visible.mp hmem with ⟨hf, -⟩ | hf
      · exact .inl hf
      · rw [hwork] at hf
        exact .inr hf
    · rw [hreq]
      exact ⟨hadmits, hurl⟩

theorem load (h : s.Sound requests) (hreq : requests i = .delete feedId)
    (hphase : s.phase i = .received) :
    (s.advance i (match scalarOneOrNone (selectById feedId (s.visible i)) with
      | .ok feed => .loaded feed
      | .error _ => .ended internalServerError)).Sound requests := by
  have hwork : (s.phase i).work = .none := by
    rw [hphase]
    rfl
  rcases scalarOneOrNone (selectById feedId (s.visible i)) with e | feed
  · refine h.advance s.nextId (h.idle hwork.symm) (fun _ _ hp ↦ nomatch hp)
      (fun _ hf ↦ nomatch hf) ?_
    rw [hreq]
    rfl
  · refine h.advance s.nextId (h.idle hwork.symm) (fun _ _ hp ↦ nomatch hp)
      (fun _ hf ↦ nomatch hf) ?_
    rw [hreq]
    exact trivial

theorem delete (h : s.Sound requests) (hphase : s.phase i = .loaded (some feed)) :
    (s.advance i (.deleted feed)).Sound requests := by
  have hadmits := h.phases i
  rw [hphase] at hadmits
  refine h.advance s.nextId ?_ (fun _ _ hp ↦ nomatch hp) (fun _ hf ↦ nomatch hf) ?_
  · have hunique := h.urls.step (.delete (i := i) (n := feed.id))
    rw [show s.shared.work i = .none from congrArg Phase.work hphase] at hunique
    exact hunique
  · cases hreq : requests i with
    | create u =>
        rw [hreq] at hadmits
        exact hadmits.elim
    | delete feedId => exact trivial

theorem step (h : s.Sound requests) (hs : Step requests s i t) : t.Sound requests := by
  cases hs with
  | insert _ _ hreq hphase hwait => exact h.insert hreq hphase hwait
  | select hreq hphase => exact h.select hreq hphase
  | load hreq hphase => exact h.load hreq hphase
  | delete hphase => exact h.delete hphase
  | commit hr => exact h.commit hr

theorem run {steps : List ι} (h : s.Sound requests) (hrun : Run (Step requests) s steps t) :
    t.Sound requests :=
  hrun.invariant (P := Sound requests) (fun _ _ _ ht hs ↦ ht.step hs) h

end Sound

/-! ## What a step does to the requests -/

namespace Step

theorem phase_of_ne (hs : Step requests s i t) (hj : j ≠ i) : t.phase j = s.phase j := by
  cases hs with
  | commit hr => exact phase_commit_of_ne hj
  | _ => exact phase_advance_of_ne hj

/-- Every step brings its request nearer to its end. -/
theorem rank_lt (hs : Step requests s i t) : (s.phase i).rank < (t.phase i).rank := by
  cases hs with
  | insert _ _ hreq hphase hwait =>
      rw [phase_advance_self, hphase]
      exact Nat.zero_lt_one
  | @select u new hreq hphase =>
      rw [phase_advance_self, hphase]
      rcases scalarOne (selectByUrl u.url (s.visible i)) with e | feed
      · exact Nat.lt_add_of_pos_right Nat.two_pos
      · exact Nat.lt_add_one 1
  | @load feedId hreq hphase =>
      rw [phase_advance_self, hphase]
      rcases scalarOneOrNone (selectById feedId (s.visible i)) with e | feed
      · exact Nat.zero_lt_succ 2
      · exact Nat.zero_lt_one
  | delete hphase =>
      rw [phase_advance_self, hphase]
      exact Nat.lt_add_one 1
  | commit hr =>
      rw [phase_commit_self]
      rcases hphase : s.phase i with _ | _ | ⟨new, feed⟩ | feed | feed | r'
      · exact Nat.zero_lt_succ 2
      · exact Nat.lt_add_of_pos_right Nat.two_pos
      · exact Nat.lt_add_one 2
      · exact Nat.lt_add_of_pos_right Nat.two_pos
      · exact Nat.lt_add_one 2
      · rw [hphase] at hr
        cases hr

/-- What has ended stays as it is. -/
theorem ended (hs : Step requests s i t) (hj : s.phase j = .ended r) : t.phase j = .ended r := by
  by_cases hji : j = i
  · subst hji
    have hrank := hs.rank_lt
    rw [hj] at hrank
    exact absurd hrank (not_lt.mpr (t.phase j).rank_le)
  · rw [hs.phase_of_ne hji, hj]

theorem answer {f : Feed} (hs : Step requests s i t) (hj : (s.phase j).answer = some f) :
    (t.phase j).answer = some f := by
  by_cases hji : j = i
  · subst hji
    cases hs with
    | commit hr =>
        rw [phase_commit_self]
        rcases hphase : s.phase j with _ | _ | ⟨new, feed⟩ | ⟨_ | feed⟩ | feed | r'
        all_goals rw [hphase] at hr hj
        all_goals cases hr
        · exact hj
        · cases hj
        · cases hj
    | insert _ _ _ hphase _ => rw [hphase] at hj; cases hj
    | select _ hphase => rw [hphase] at hj; cases hj
    | load _ hphase => rw [hphase] at hj; cases hj
    | delete hphase => rw [hphase] at hj; cases hj
  · rw [hs.phase_of_ne hji, hj]

/-- A feed that is answered for the first time has just been selected. -/
theorem answer_eq {g : Feed} {v : PublicUrl} (hs : Step requests s i t)
    (hreq : requests j = .create v) (hj : (s.phase j).answer = none)
    (hg : (t.phase j).answer = some g) :
    t.history = s.history ∧ (s.phase j).work.deleted = [] ∧ g ∈ s.visible j ∧ g.url = v.url := by
  have hji : j = i := by
    by_contra hji
    rw [hs.phase_of_ne hji, hj] at hg
    cases hg
  subst hji
  cases hs with
  | insert _ _ _ _ _ => rw [phase_advance_self] at hg; cases hg
  | @select u new hreq' hphase =>
      rw [hreq] at hreq'
      cases hreq'
      rw [phase_advance_self] at hg
      rcases hrows : scalarOne (selectByUrl v.url (s.visible j)) with e | feed
      · rw [hrows] at hg
        cases hg
      · rw [hrows] at hg
        cases hg
        refine ⟨rfl, ?_, mem_selectByUrl.mp (scalarOne_mem hrows)⟩
        rw [hphase]
        rfl
  | load hreq' _ =>
      rw [hreq] at hreq'
      cases hreq'
  | delete _ => rw [phase_advance_self] at hg; cases hg
  | commit hr =>
      rw [phase_commit_self] at hg
      rw [Phase.answer_of_response hr hg] at hj
      cases hj

theorem history (hs : Step requests s i t) : s.history <:+ t.history := by
  cases hs with
  | commit hr => exact List.suffix_append _ _
  | _ => exact List.suffix_refl _

end Step

omit [DecidableEq ι] in
/-- The feed that was answered to another request for the URL is answered again, unless it has
been deleted. -/
theorem Sound.same_feed (h : s.Sound requests) {u v : PublicUrl} {f g : Feed}
    (hi : requests i = .create u) (hij : i ≠ j) (huv : u.url = v.url)
    (hf : (s.phase i).answer = some f) (hg : g ∈ s.visible j) (hurl : g.url = v.url)
    (hdeleted : Change.deleted f ∉ s.history) (hj : (s.phase j).work.deleted = []) : g = f := by
  have hfurl : f.url = u.url := (hi ▸ h.phases i).answer_url hf
  rcases h.answered i f hf with hf | hf | hf
  · have hvisible : f ∈ s.visible j := by
      refine mem_visible.mpr (.inl ⟨hf, ?_⟩)
      rw [hj]
      exact List.not_mem_nil
    exact (h.urls.visible j).eq_of_key hg hvisible (hurl.trans (huv.symm.trans hfurl.symm))
  · have hkept : g.id ∉ (s.phase i).work.deleted := by
      rw [Phase.deleted_of_inserted hf]
      exact List.not_mem_nil
    exact absurd (hurl.trans (huv.symm.trans hfurl.symm)) (h.urls.apart_visible hij hf hg hkept)
  · exact absurd hf hdeleted

/-! ## Registrations that fail -/

/-- A registration has failed. -/
def Failed (requests : ι → ApiRequest) (s : Registry ι) : Prop :=
  ∃ i u, requests i = .create u ∧ s.phase i = .ended internalServerError

omit [DecidableEq ι] in
/-- The selection of a registration that is not disturbed finds a feed. -/
theorem Sound.select_ok {u : PublicUrl} {new : Option Feed} (h : s.Sound requests)
    (hreq : requests i = .create u) (hphase : s.phase i = .inserted new)
    (hundisturbed : s.Undisturbed requests i) :
    ∃ f, scalarOne (selectByUrl u.url (s.visible i)) = .ok f := by
  have hfound : ∃ f ∈ s.visible i, f.url = u.url := by
    cases new with
    | none =>
        obtain ⟨f, hf, hurl⟩ := h.conflicted i u hreq hphase (hundisturbed u hreq hphase)
        refine ⟨f, mem_visible.mpr (.inl ⟨hf, ?_⟩), hurl⟩
        rw [hphase]
        exact List.not_mem_nil
    | some f =>
        have hadmits := h.phases i
        rw [hreq, hphase] at hadmits
        refine ⟨f, mem_visible.mpr (.inr ?_), hadmits f rfl⟩
        rw [hphase]
        exact List.mem_singleton.mpr rfl
  obtain ⟨f, hf, hurl⟩ := hfound
  exact ⟨f, scalarOne_selectByUrl (h.urls.visible i) hf hurl⟩

omit [DecidableEq ι] in
/-- That of one that is disturbed finds none. -/
theorem Sound.select_error {u : PublicUrl} (h : s.Sound requests)
    (hphase : s.phase i = .inserted none) (hvacated : s.Vacated u.url) :
    scalarOne (selectByUrl u.url (s.visible i)) = .error .noResultFound := by
  refine scalarOne_selectByUrl_of_free fun f hf ↦ ?_
  rcases mem_visible.mp hf with ⟨hf, -⟩ | hf
  · exact h.vacant u.url hvacated f hf
  · rw [hphase] at hf
    cases hf

/-- A step makes a registration fail exactly when it is disturbed. -/
theorem Sound.failed_iff (h : s.Sound requests) (hs : Step requests s i t)
    (hbefore : ¬s.Failed requests) : t.Failed requests ↔ ¬s.Undisturbed requests i := by
  constructor
  · rintro ⟨j, u, hreq, hended⟩ hundisturbed
    have hji : j = i := by
      by_contra hji
      rw [hs.phase_of_ne hji] at hended
      exact hbefore ⟨j, u, hreq, hended⟩
    subst hji
    cases hs with
    | insert _ _ _ _ _ => rw [phase_advance_self] at hended; cases hended
    | @select v new hreq' hphase =>
        rw [hreq] at hreq'
        cases hreq'
        obtain ⟨f, hf⟩ := h.select_ok hreq hphase hundisturbed
        rw [phase_advance_self, hf] at hended
        cases hended
    | load hreq' _ =>
        rw [hreq] at hreq'
        cases hreq'
    | delete _ => rw [phase_advance_self] at hended; cases hended
    | commit hr =>
        rw [phase_commit_self] at hended
        cases hended
        exact Phase.response_ne_internalServerError _ hr
  · intro hdisturbed
    simp only [Undisturbed, not_forall, not_not] at hdisturbed
    obtain ⟨u, hreq, hphase, hvacated⟩ := hdisturbed
    refine ⟨i, u, hreq, ?_⟩
    cases hs with
    | insert _ _ _ hphase' _ => rw [hphase] at hphase'; cases hphase'
    | @select v new hreq' hphase' =>
        rw [hreq] at hreq'
        cases hreq'
        rw [phase_advance_self, h.select_error hphase hvacated]
    | load hreq' _ =>
        rw [hreq] at hreq'
        cases hreq'
    | delete hphase' => rw [hphase] at hphase'; cases hphase'
    | commit hr => rw [hphase] at hr; cases hr

theorem Step.failed (hs : Step requests s i t) (h : s.Failed requests) : t.Failed requests := by
  obtain ⟨j, u, hreq, hended⟩ := h
  exact ⟨j, u, hreq, hs.ended hended⟩

variable {s₀ : Registry ι} {steps : List ι}

/-- No registration fails in a run exactly when none is disturbed. -/
theorem not_failed_iff (h₀ : s₀.Initial) (hrun : Run (Step requests) s₀ steps s) :
    ¬s.Failed requests ↔ Run (UndisturbedStep requests) s₀ steps s := by
  constructor
  · induction hrun with
    | nil => exact fun _ ↦ .nil
    | @snoc steps t u i hrun hs ih =>
        intro hgood
        have hbefore : ¬t.Failed requests := fun hf ↦ hgood (hs.failed hf)
        have hsound : t.Sound requests := (Sound.start h₀).run hrun
        refine (ih hbefore).snoc ⟨?_, hs⟩
        exact not_not.mp fun hd ↦ hgood ((hsound.failed_iff hs hbefore).mpr hd)
  · intro hrun
    have hgood : s.Sound requests ∧ ¬s.Failed requests := by
      refine hrun.invariant (P := fun s ↦ s.Sound requests ∧ ¬s.Failed requests) ?_ ?_
      · rintro t i u ⟨ht, hbefore⟩ ⟨hundisturbed, hs⟩
        exact ⟨ht.step hs, fun hf ↦ (ht.failed_iff hs hbefore).mp hf hundisturbed⟩
      · refine ⟨.start h₀, ?_⟩
        rintro ⟨i, u, -, hended⟩
        rw [h₀.phase i] at hended
        cases hended
    exact hgood.2

/-! ## Idempotence -/

theorem count_le_rank (hrun : Run (Step requests) s₀ steps s) (i : ι) :
    steps.count i ≤ (s.phase i).rank := by
  induction hrun with
  | nil => exact Nat.zero_le _
  | @snoc steps t u j _ hs ih =>
      rw [List.count_append]
      by_cases hji : i = j
      · subst hji
        rw [List.count_singleton_self]
        exact Nat.succ_le_of_lt (lt_of_le_of_lt ih hs.rank_lt)
      · rw [List.count_singleton, hs.phase_of_ne hji]
        simpa [Ne.symm hji] using ih

theorem same_id (h₀ : s₀.Initial) {u v : PublicUrl} {f g : Feed} {steps₁ steps₂ : List ι}
    {s₁ : Registry ι} (hi : requests i = .create u) (hj : requests j = .create v)
    (huv : u.url = v.url) (hrun₁ : Run (Step requests) s₀ steps₁ s₁)
    (hrun₂ : Run (Step requests) s₁ steps₂ s) (hf : (s₁.phase i).answer = some f)
    (hnone : (s₁.phase j).answer = none) (hg : (s.phase j).answer = some g)
    (hdeleted : Change.deleted f ∉ s.history) : g = f := by
  have hij : i ≠ j := by
    rintro rfl
    rw [hf] at hnone
    cases hnone
  have hinv : s.Sound requests ∧ (s.phase i).answer = some f ∧
      ∀ g, (s.phase j).answer = some g → g = f ∨ Change.deleted f ∈ s.history := by
    refine hrun₂.invariant (P := fun s ↦ s.Sound requests ∧ (s.phase i).answer = some f ∧
      ∀ g, (s.phase j).answer = some g → g = f ∨ Change.deleted f ∈ s.history) ?_ ?_
    · rintro t k t' ⟨ht, hti, htj⟩ hs
      refine ⟨ht.step hs, hs.answer hti, fun g hg ↦ ?_⟩
      cases hbefore : (t.phase j).answer with
      | some g' =>
          rw [hs.answer hbefore] at hg
          cases hg
          exact (htj _ hbefore).imp_right fun hmem ↦ hs.history.subset hmem
      | none =>
          obtain ⟨hhistory, hwork, hmem, hurl⟩ := hs.answer_eq hj hbefore hg
          rw [hhistory]
          by_cases hd : Change.deleted f ∈ t.history
          · exact .inr hd
          · exact .inl (ht.same_feed hi hij huv hti hmem hurl hd hwork)
    · refine ⟨(Sound.start h₀).run hrun₁, hf, fun g hg ↦ ?_⟩
      rw [hnone] at hg
      cases hg
  exact (hinv.2.2 g hg).resolve_right hdeleted

/-- A registration that has not ended goes on, or waits for one that does. -/
theorem Sound.progress (h : s.Sound requests) {u : PublicUrl} (hreq : requests i = .create u) :
    (∃ r, s.phase i = .ended r) ∨ ∃ j t, Step requests s j t ∧
      (j = i ∨ ∃ f ∈ (s.phase j).work.inserted, f.url = u.url) := by
  have hadmits := h.phases i
  rw [hreq] at hadmits
  rcases hphase : s.phase i with _ | new | ⟨new, feed⟩ | feed | feed | r
  · right
    by_cases hwait : ∀ j ≠ i, ∀ f ∈ (s.phase j).work.inserted, f.url ≠ u.url
    · exact ⟨i, _, .insert .year2000 .year2000 hreq hphase hwait, .inl rfl⟩
    · simp only [not_forall, not_not] at hwait
      obtain ⟨j, -, f, hf, hurl⟩ := hwait
      suffices hstep : ∃ t, Step requests s j t by
        obtain ⟨t, ht⟩ := hstep
        exact ⟨j, t, ht, .inr ⟨f, hf, hurl⟩⟩
      have hadmits := h.phases j
      rcases hphase' : s.phase j with _ | new | ⟨new, feed⟩ | feed | feed | r
      · rw [hphase'] at hf
        cases hf
      · rw [hphase'] at hadmits
        cases hreq' : requests j with
        | create v => exact ⟨_, .select hreq' hphase'⟩
        | delete feedId =>
            rw [hreq'] at hadmits
            exact hadmits.elim
      · exact ⟨_, .commit (congrArg Phase.response hphase')⟩
      all_goals
        rw [hphase'] at hf
        cases hf
  · exact .inr ⟨i, _, .select hreq hphase, .inl rfl⟩
  · exact .inr ⟨i, _, .commit (congrArg Phase.response hphase), .inl rfl⟩
  · rw [hphase] at hadmits
    exact hadmits.elim
  · rw [hphase] at hadmits
    exact hadmits.elim
  · exact .inl ⟨r, rfl⟩

/-- Registration is idempotent in a run exactly when no registration is disturbed in it. -/
theorem registration_idempotent_iff (h₀ : s₀.Initial) (hrun : Run (Step requests) s₀ steps s) :
    Idempotent requests s₀ steps s ↔ Run (UndisturbedStep requests) s₀ steps s := by
  have hsound : s.Sound requests := (Sound.start h₀).run hrun
  rw [← not_failed_iff h₀ hrun]
  constructor
  · rintro h ⟨i, u, hreq, hended⟩
    obtain ⟨f, -, hr | hr⟩ := h.answers i u _ hreq hended
    · cases hr
    · cases hr
  · intro hgood
    refine ⟨?_, fun i u hreq ↦ hsound.progress hreq, fun i ↦ ?_, ?_, ?_⟩
    · intro i u r hreq hended
      have hadmits := hsound.phases i
      rw [hreq, hended] at hadmits
      rcases hadmits with rfl | ⟨f, hurl, hr⟩
      · exact absurd ⟨i, u, hreq, hended⟩ hgood
      · refine ⟨f, ?_, hr⟩
        rw [hurl]
        exact u.normalized
    · exact (count_le_rank hrun i).trans (s.phase i).rank_le
    · exact ⟨hsound.urls.committed, hsound.urls.visible⟩
    · intro i j u v f g steps₁ steps₂ s₁ hi hj huv hrun₁ hrun₂ hf hnone hg hdeleted
      rw [same_id h₀ hi hj huv hrun₁ hrun₂ hf hnone hg hdeleted]

/-- The payload `http://a.example/feed/`. -/
def slashed : PublicUrl where
  raw := "http://a.example/feed/".toList
  url := "http://a.example/feed".toList
  valid := by decide +kernel

/-- Two registrations of one URL, and the deletion of the first feed. -/
def race : Fin 3 → ApiRequest
  | 0 => .create slashed
  | 1 => .create slashed
  | 2 => .delete 1

def empty : Registry (Fin 3) := ⟨[], 1, [], fun _ ↦ .received⟩

theorem empty_initial : empty.Initial := ⟨.nil _, rfl, fun _ ↦ rfl⟩

/-- The feed `http://a.example/feed` as it is registered under the first id. -/
def first : Feed := Feed.registered 1 slashed.url .year2000 .year2000

omit [DecidableEq ι] in
theorem undisturbed_of_ne {requests : ι → ApiRequest} {s : Registry ι} {i : ι}
    (h : s.phase i ≠ .inserted none) : s.Undisturbed requests i :=
  fun _ _ hphase ↦ absurd hphase h

/-- The second registration finds the feed of the first one, which is deleted when it has
selected it. -/
theorem race_undisturbed : ∃ s, s.phase 0 = .ended ⟨201, some first⟩ ∧
    s.phase 1 = .ended ⟨200, some first⟩ ∧ s.table = [] ∧
    Run (UndisturbedStep race) empty [0, 0, 0, 2, 1, 1, 2, 2, 1] s := by
  have h₁ : Run (UndisturbedStep race) empty [0] _ :=
    .single ⟨undisturbed_of_ne nofun, .insert .year2000 .year2000 rfl rfl (by decide +kernel)⟩
  have h₂ : Run (UndisturbedStep race) empty [0, 0] _ :=
    h₁.snoc ⟨undisturbed_of_ne nofun, .select rfl rfl⟩
  have h₃ : Run (UndisturbedStep race) empty [0, 0, 0] _ :=
    h₂.snoc ⟨undisturbed_of_ne nofun, .commit rfl⟩
  have h₄ : Run (UndisturbedStep race) empty [0, 0, 0, 2] _ :=
    h₃.snoc ⟨undisturbed_of_ne nofun, .load rfl rfl⟩
  have h₅ : Run (UndisturbedStep race) empty [0, 0, 0, 2, 1] _ :=
    h₄.snoc ⟨undisturbed_of_ne nofun, .insert .year2000 .year2000 rfl rfl (by decide +kernel)⟩
  have h₆ : Run (UndisturbedStep race) empty [0, 0, 0, 2, 1, 1] _ :=
    h₅.snoc ⟨by rintro _ ⟨⟩ - ⟨f, ⟨⟩⟩, .select rfl rfl⟩
  have h₇ : Run (UndisturbedStep race) empty [0, 0, 0, 2, 1, 1, 2] _ :=
    h₆.snoc ⟨undisturbed_of_ne nofun, .delete rfl⟩
  have h₈ : Run (UndisturbedStep race) empty [0, 0, 0, 2, 1, 1, 2, 2] _ :=
    h₇.snoc ⟨undisturbed_of_ne nofun, .commit rfl⟩
  exact ⟨_, rfl, rfl, rfl, h₈.snoc ⟨undisturbed_of_ne nofun, .commit rfl⟩⟩

theorem race_idempotent : ∃ s, s.phase 0 = .ended ⟨201, some first⟩ ∧
    s.phase 1 = .ended ⟨200, some first⟩ ∧ s.table = [] ∧
    Idempotent race empty [0, 0, 0, 2, 1, 1, 2, 2, 1] s := by
  obtain ⟨s, hfirst, hsecond, htable, hrun⟩ := race_undisturbed
  refine ⟨s, hfirst, hsecond, htable, ?_⟩
  exact (registration_idempotent_iff empty_initial (hrun.mono fun _ _ _ h ↦ h.2)).mpr hrun

/-- The table after the first registration. -/
def registered : Registry (Fin 3) := ⟨[first], 2, [], fun _ ↦ .received⟩

/-- The second registration finds the URL taken, and the feed is deleted before it is selected:
the registration fails, although it is of a valid URL. -/
theorem race_fails : registered.Initial ∧ ∃ s, Run (Step race) registered [1, 2, 2, 2, 1] s ∧
    s.phase 1 = .ended internalServerError ∧
    ¬Idempotent race registered [1, 2, 2, 2, 1] s := by
  refine ⟨⟨List.nodup_singleton _, rfl, fun _ ↦ rfl⟩, ?_⟩
  have h₁ : Run (Step race) registered [1] _ :=
    .single (.insert .year2000 .year2000 rfl rfl (by decide +kernel))
  have h₂ : Run (Step race) registered [1, 2] _ := h₁.snoc (.load rfl rfl)
  have h₃ : Run (Step race) registered [1, 2, 2] _ := h₂.snoc (.delete rfl)
  have h₄ : Run (Step race) registered [1, 2, 2, 2] _ := h₃.snoc (.commit rfl)
  refine ⟨_, h₄.snoc (.select rfl rfl), rfl, fun h ↦ ?_⟩
  obtain ⟨f, -, hr | hr⟩ := h.answers 1 slashed internalServerError rfl rfl
  · cases hr
  · cases hr

end Registry

end FeedgateFetcher
