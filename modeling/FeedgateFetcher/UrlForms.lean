import FeedgateFetcher.Python.Unsplit
import FeedgateFetcher.Api.Feeds

/-!
# The normal form of a feed URL

Two URLs name the same feed when they differ in the fragment or in slashes at the end
of the path only.  `normalize_url` picks one URL of each class: its result is its own
normal form, and the results for two URLs are equal just when the URLs name the same
feed.
-/

namespace FeedgateFetcher

open Python

/-! ## Paths -/

/-- The path without the slashes at its end. -/
def stem (path : Text) : Text := Text.rstripWhere (· == '/') path

theorem stem_prefix (path : Text) : stem path <+: path := Text.rstripWhere_prefix _ path

theorem getLast?_stem (path : Text) : (stem path).getLast? ≠ some '/' := fun h ↦
  Text.getLast?_rstripWhere _ path '/' h rfl

@[simp] theorem stem_stem (path : Text) : stem (stem path) = stem path :=
  Text.rstripWhere_eq_self (Text.getLast?_rstripWhere _ path)

/-! ## Feed URLs -/

/-- A URL as `HttpUrl` prints it, with its components. -/
structure WebUrl where
  text : Text
  parts : SplitResult
  split : SplitResult.urlsplit text = .ok parts
  scheme : parts.scheme = "http".toList ∨ parts.scheme = "https".toList
  host : parts.hostname ≠ none

instance : Inhabited WebUrl where
  default :=
    ⟨"http://a/".toList, ⟨"http".toList, ['a'], ['/'], [], []⟩, by decide, .inl rfl, by decide⟩

namespace WebUrl

variable {u v : WebUrl}

@[ext] theorem ext (h : u.text = v.text) : u = v := by
  have hparts : u.parts = v.parts := by
    have := u.split
    rw [h, v.split] at this
    exact (Except.ok.inj this).symm
  cases u
  cases v
  cases h
  cases hparts
  rfl

theorem isScheme (u : WebUrl) : SplitResult.IsScheme u.parts.scheme := by
  rcases u.scheme with h | h
  · rw [h]
    exact ⟨rfl, rfl, rfl⟩
  · rw [h]
    exact ⟨rfl, rfl, rfl⟩

theorem netloc_ne (u : WebUrl) : u.parts.netloc ≠ [] := by
  intro h
  exact u.host (by simp [SplitResult.hostname, h, Text.afterLast, Text.partition])

theorem wellFormed (u : WebUrl) : u.parts.WellFormed :=
  SplitResult.wellFormed_of_urlsplit u.split u.isScheme u.netloc_ne

/-- The components of the normal form. -/
def normalParts (u : WebUrl) : SplitResult :=
  ⟨u.parts.scheme, u.parts.netloc, stem u.parts.path, u.parts.query, []⟩

theorem normalParts_wellFormed (u : WebUrl) : u.normalParts.WellFormed := by
  have h := u.wellFormed
  have hhead := stem_prefix u.parts.path
  refine
    { scheme := h.scheme
      netloc_ne := h.netloc_ne
      netloc_free := h.netloc_free
      netloc_brackets := h.netloc_brackets
      path_head := fun c hc ↦ ?_
      path_free :=
        ⟨fun hmem ↦ h.path_free.1 (hhead.subset hmem),
          fun hmem ↦ h.path_free.2 (hhead.subset hmem)⟩
      query_free := h.query_free
      safe := fun c hc ↦ h.safe c ?_ }
  · obtain ⟨more, hmore⟩ := hhead
    refine h.path_head c ?_
    rw [← hmore]
    cases hstem : stem u.parts.path with
    | nil => simp [normalParts, hstem] at hc
    | cons d path => simpa [normalParts, hstem] using hc
  · simp only [normalParts, List.append_nil, List.mem_append] at hc ⊢
    rcases hc with (hc | hc) | hc
    · exact .inl (.inl (.inl hc))
    · exact .inl (.inl (.inr (hhead.subset hc)))
    · exact .inl (.inr hc)

/-- The normal form of a URL. -/
def normal (u : WebUrl) : WebUrl where
  text := SplitResult.urlunsplit u.normalParts
  parts := u.normalParts
  split := u.normalParts_wellFormed.urlsplit_urlunsplit
  scheme := u.scheme
  host := u.host

/-- The two rewrites of the path in `normalize_url` take off all slashes at its end. -/
theorem rewritten_eq_stem (path : Text) :
    (if (if path ≠ ['/'] ∧ path.getLast? = some '/' then stem path else path) = ['/'] then []
      else if path ≠ ['/'] ∧ path.getLast? = some '/' then stem path else path) = stem path := by
  by_cases hroot : path = ['/']
  · subst hroot
    decide
  · by_cases hlast : path.getLast? = some '/'
    · have hne : stem path ≠ ['/'] := fun h ↦ getLast?_stem path (by simp [h])
      simp [hroot, hlast, hne]
    · have hstem : stem path = path :=
        Text.rstripWhere_eq_self fun c hc hslash ↦ hlast (eq_of_beq hslash ▸ hc)
      simp [hroot, hlast, hstem]

/-- `normalize_url` computes the normal form. -/
theorem normalizeUrl_text (u : WebUrl) : normalizeUrl u.text = .ok u.normal.text := by
  unfold normalizeUrl
  rw [u.split]
  change Except.ok (SplitResult.urlunsplit ⟨_, _, _, _, []⟩) = _
  exact congrArg (fun path ↦ Except.ok (SplitResult.urlunsplit ⟨_, _, path, _, []⟩))
    (rewritten_eq_stem u.parts.path)

/-! ## The feed that a URL names -/

/-- The URLs differ in the fragment and in slashes at the end of the path only. -/
instance sameFeed : Setoid WebUrl where
  r u v :=
    u.parts.scheme = v.parts.scheme ∧ u.parts.netloc = v.parts.netloc ∧
      u.parts.query = v.parts.query ∧ stem u.parts.path = stem v.parts.path
  iseqv :=
    { refl := fun _ ↦ ⟨rfl, rfl, rfl, rfl⟩
      symm := fun h ↦ ⟨h.1.symm, h.2.1.symm, h.2.2.1.symm, h.2.2.2.symm⟩
      trans := fun h k ↦
        ⟨h.1.trans k.1, h.2.1.trans k.2.1, h.2.2.1.trans k.2.2.1, h.2.2.2.trans k.2.2.2⟩ }

theorem equiv_iff : u ≈ v ↔ u.parts.scheme = v.parts.scheme ∧
    u.parts.netloc = v.parts.netloc ∧ u.parts.query = v.parts.query ∧
      stem u.parts.path = stem v.parts.path := Iff.rfl

theorem normal_equiv (u : WebUrl) : u.normal ≈ u := ⟨rfl, rfl, rfl, stem_stem u.parts.path⟩

theorem normalParts_eq_iff : u.normalParts = v.normalParts ↔ u ≈ v := by
  rw [equiv_iff]
  unfold normalParts
  rw [SplitResult.mk.injEq]
  tauto

theorem normal_eq_iff : u.normal = v.normal ↔ u ≈ v := by
  rw [← normalParts_eq_iff]
  constructor
  · intro h
    exact congrArg parts h
  · intro h
    exact ext (congrArg SplitResult.urlunsplit h)

@[simp] theorem normal_normal (u : WebUrl) : u.normal.normal = u.normal :=
  normal_eq_iff.mpr u.normal_equiv

/-- A normal form has no mark of a fragment at all. -/
theorem sharp_notMem_normal (u : WebUrl) : '#' ∉ u.normal.text := by
  have h := u.normalParts_wellFormed
  change '#' ∉ SplitResult.urlunsplit u.normalParts
  rw [h.urlunsplit_eq]
  have hscheme : '#' ∉ u.normalParts.scheme := fun hmem ↦
    absurd (List.all_eq_true.mp h.scheme.chars '#' hmem) (by decide)
  have hnetloc : '#' ∉ u.normalParts.netloc := fun hmem ↦ h.netloc_free '#' hmem (by decide)
  have hfragment : u.normalParts.fragment = [] := rfl
  simp [SplitResult.target, hscheme, hnetloc, h.path_free.2, h.query_free, hfragment]

/-- `normalize_url` is a canonical form of the URLs that name a feed. -/
theorem normalizeUrl_canonical (u v : WebUrl) :
    ∃ n : WebUrl, normalizeUrl u.text = .ok n.text ∧ normalizeUrl n.text = .ok n.text ∧
      (normalizeUrl u.text = normalizeUrl v.text ↔
        u.parts.scheme = v.parts.scheme ∧ u.parts.netloc = v.parts.netloc ∧
          u.parts.query = v.parts.query ∧ stem u.parts.path = stem v.parts.path) ∧
      n.parts.fragment = [] ∧ '#' ∉ n.text ∧ n.parts.path.getLast? ≠ some '/' ∧
      n.parts.path = stem u.parts.path ∧ n.parts.query = u.parts.query := by
  refine ⟨u.normal, u.normalizeUrl_text, ?_, ?_, rfl, u.sharp_notMem_normal, getLast?_stem _,
    rfl, rfl⟩
  · rw [normalizeUrl_text, normal_normal]
  · rw [normalizeUrl_text, normalizeUrl_text, ← equiv_iff, ← normal_eq_iff, WebUrl.ext_iff,
      Except.ok.injEq]

/-! ## Registrations -/

/-- Two registrations are for one row of the table when their URLs name the same feed. -/
theorem registered_eq_iff {a b : PublicUrl} (ha : a.raw = u.text) (hb : b.raw = v.text) :
    a.url = b.url ↔ u ≈ v := by
  have hu : a.url = u.normal.text := by
    have := a.normalized
    rw [ha, normalizeUrl_text] at this
    exact (Except.ok.inj this).symm
  have hv : b.url = v.normal.text := by
    have := b.normalized
    rw [hb, normalizeUrl_text] at this
    exact (Except.ok.inj this).symm
  rw [hu, hv, ← WebUrl.ext_iff, normal_eq_iff]

end WebUrl

end FeedgateFetcher
