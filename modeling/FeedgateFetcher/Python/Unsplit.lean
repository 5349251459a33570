import Mathlib.Data.List.TakeDrop
import Mathlib.Data.List.TakeWhile
import FeedgateFetcher.Python.Url

/-!
# `urlsplit` and `urlunsplit` as inverses

The components that `urlsplit` finds in a URL with a scheme and an authority are
free of the delimiters that would end them.  Conversely, five components without
their delimiters are found again in the URL that `urlunsplit` makes of them.
-/

namespace FeedgateFetcher.Python

namespace SplitResult

open Text

/-! ## Components without delimiters -/

/-- The characters that `urlsplit` removes. -/
def isUnsafe (c : Char) : Bool := c == '\t' || c == '\r' || c == '\n'

/-- The characters that end an authority. -/
def isDelimiter (c : Char) : Bool := c == '/' || c == '?' || c == '#'

/-- A scheme in lower case. -/
structure IsScheme (s : Text) : Prop where
  head : s.head?.any isAsciiAlpha
  chars : s.all isSchemeChar
  lower_eq : lower s = s

/-- The components of a URL with a scheme and an authority. -/
structure WellFormed (r : SplitResult) : Prop where
  scheme : IsScheme r.scheme
  netloc_ne : r.netloc ≠ []
  netloc_free : ∀ c ∈ r.netloc, ¬isDelimiter c
  netloc_brackets : checkBrackets r.netloc
  path_head : ∀ c ∈ r.path.head?, c = '/'
  path_free : '?' ∉ r.path ∧ '#' ∉ r.path
  query_free : '#' ∉ r.query
  safe : ∀ c ∈ r.netloc ++ r.path ++ r.query ++ r.fragment, ¬isUnsafe c

section

variable {r : SplitResult} {c : Char} {url s rest : Text}

theorem clean_eq (url : Text) :
    clean url = (lstripWhere (fun c ↦ c.toNat ≤ 32) url).filter fun c ↦ !isUnsafe c := by
  unfold clean
  refine List.filter_congr fun c _ ↦ ?_
  simp [isUnsafe, bne]

theorem mem_clean (h : c ∈ clean url) : ¬isUnsafe c := by
  rw [clean_eq] at h
  simpa using (List.mem_filter.mp h).2

theorem clean_eq_self (h : ∀ c ∈ url, ¬isUnsafe c) (hhead : ∀ c ∈ url.head?, 32 < c.toNat) :
    clean url = url := by
  have hstrip : lstripWhere (fun c ↦ c.toNat ≤ 32) url = url := by
    cases url with
    | nil => rfl
    | cons c url =>
        have hc : 32 < c.toNat := hhead c (by simp)
        exact List.dropWhile_cons_of_neg (by simpa using hc)
  rw [clean_eq, hstrip]
  exact List.filter_eq_self.mpr fun c hc ↦ by simpa using h c hc

theorem splitScheme_suffix (url : Text) : (splitScheme url).2 <:+ url := by
  unfold splitScheme
  split
  · dsimp only
    split
    · exact List.drop_suffix _ _
    · exact List.suffix_rfl
  · exact List.suffix_rfl

theorem colon_notMem (h : s.all isSchemeChar) : ':' ∉ s := by
  intro hmem
  have := List.all_eq_true.mp h ':' hmem
  exact absurd this (by decide)

theorem splitScheme_append (hhead : s.head?.any isAsciiAlpha) (h : s.all isSchemeChar) :
    splitScheme (s ++ ':' :: rest) = (lower s, rest) := by
  have hne : s ≠ [] := by
    rintro rfl
    simp at hhead
  have hfind : find ':' (s ++ ':' :: rest) = some s.length := by
    unfold find
    rw [List.findIdx?_append]
    have hnone : s.findIdx? (· == ':') = none := by
      refine List.findIdx?_eq_none_iff.mpr fun c hc ↦ ?_
      rw [beq_eq_false_iff_ne]
      rintro rfl
      exact colon_notMem h hc
    simp [hnone, List.findIdx?_cons]
  obtain ⟨n, hn⟩ := Nat.exists_eq_succ_of_ne_zero (List.length_pos_iff.mpr hne).ne'
  unfold splitScheme
  rw [hfind, hn]
  have htake : (s ++ ':' :: rest).take (n + 1) = s := by
    rw [← Nat.succ_eq_add_one, ← hn]
    exact List.take_left
  have hdrop : (s ++ ':' :: rest).drop (n + 2) = rest := by
    have : n + 2 = s.length + 1 := by omega
    rw [this, ← List.drop_drop, List.drop_left]
    rfl
  simp only [htake, hdrop, hhead, h, Bool.and_self, if_true]

theorem splitNetloc_slashes (rest : Text) :
    splitNetloc ('/' :: '/' :: rest) =
      (rest.takeWhile fun c ↦ !isDelimiter c, rest.dropWhile fun c ↦ !isDelimiter c) := by
  have hp : (fun c ↦ c != '/' && c != '?' && c != '#') = fun c ↦ !isDelimiter c := by
    funext c
    simp [isDelimiter, bne]
  rw [splitNetloc, hp]
  exact List.span_eq_takeWhile_dropWhile _ rest

theorem splitNetloc_append (h : ∀ c ∈ s, ¬isDelimiter c) (hrest : ∀ c ∈ rest.head?, isDelimiter c) :
    splitNetloc ('/' :: '/' :: (s ++ rest)) = (s, rest) := by
  have hs : ∀ c ∈ s, !isDelimiter c := fun c hc ↦ by simpa using h c hc
  have hstop : rest.takeWhile (fun c ↦ !isDelimiter c) = [] ∧
      rest.dropWhile (fun c ↦ !isDelimiter c) = rest := by
    cases rest with
    | nil => exact ⟨rfl, rfl⟩
    | cons c rest => simp [hrest c (by simp)]
  rw [splitNetloc_slashes, List.takeWhile_append_of_pos hs, List.dropWhile_append_of_pos hs,
    hstop.1, hstop.2, List.append_nil]

/-- An authority that was found is followed by what ended it. -/
theorem splitNetloc_cases (url : Text) :
    splitNetloc url = ([], url) ∨
      ∃ s rest, url = '/' :: '/' :: (s ++ rest) ∧ splitNetloc url = (s, rest) ∧
        (∀ c ∈ s, ¬isDelimiter c) ∧ ∀ c ∈ rest.head?, isDelimiter c := by
  unfold splitNetloc
  split
  case h_1 rest =>
    refine .inr ⟨_, _, ?_, splitNetloc_slashes rest, ?_, ?_⟩
    · rw [List.takeWhile_append_dropWhile]
    · intro c hc
      simpa using List.mem_takeWhile_imp hc
    · intro c hc
      have hstop := List.head?_dropWhile_not (fun c ↦ !isDelimiter c) rest
      rw [Option.mem_def.mp hc] at hstop
      simpa using hstop
  case h_2 => exact .inl rfl

/-- What follows the authority. -/
def target (r : SplitResult) : Text :=
  r.path ++ (if r.query.isEmpty then [] else '?' :: r.query) ++
    if r.fragment.isEmpty then [] else '#' :: r.fragment

theorem urlsplit_eq_ok (h : urlsplit url = .ok r) :
    ∃ rest tail, splitScheme (clean url) = (r.scheme, rest) ∧ splitNetloc rest = (r.netloc, tail) ∧
      checkBrackets r.netloc ∧ r.fragment = (partition '#' tail).2.2 ∧
      r.path = (partition '?' (partition '#' tail).1).1 ∧
      r.query = (partition '?' (partition '#' tail).1).2.2 := by
  unfold urlsplit at h
  dsimp only at h
  split at h
  case isTrue => cases h
  case isFalse hbrackets =>
    cases h
    exact ⟨_, _, rfl, rfl, by simpa using hbrackets, rfl, rfl, rfl⟩

/-- `urlsplit` finds components without delimiters. -/
theorem wellFormed_of_urlsplit (h : urlsplit url = .ok r) (hscheme : IsScheme r.scheme)
    (hnetloc : r.netloc ≠ []) : r.WellFormed := by
  obtain ⟨rest, tail, hs, hn, hbrackets, hfragment, hpath, hquery⟩ := urlsplit_eq_ok h
  have hrest : rest <:+ clean url := by
    have := splitScheme_suffix (clean url)
    rwa [hs] at this
  obtain hnone | ⟨netloc, tail', rfl, hfound, hfree, hstop⟩ := splitNetloc_cases rest
  · exact absurd (congrArg Prod.fst (hn.symm.trans hnone)) hnetloc
  obtain ⟨rfl, rfl⟩ := Prod.mk.inj (hn.symm.trans hfound)
  have hbefore : (partition '#' tail).1 <+: tail := partition_fst_prefix '#' tail
  have hhead : r.path <+: (partition '#' tail).1 := hpath ▸ partition_fst_prefix '?' _
  have hsharp : '#' ∉ (partition '#' tail).1 := notMem_partition_fst '#' tail
  have hquestion : '?' ∉ r.path := hpath ▸ notMem_partition_fst '?' _
  have hsuffix : r.query <:+ (partition '#' tail).1 := hquery ▸ partition_snd_suffix '?' _
  have hafter : r.fragment <:+ tail := hfragment ▸ partition_snd_suffix '#' tail
  constructor
  case scheme => exact hscheme
  case netloc_ne => exact hnetloc
  case netloc_free => exact hfree
  case netloc_brackets => exact hbrackets
  case path_free => exact ⟨hquestion, fun hmem ↦ hsharp (hhead.subset hmem)⟩
  case query_free => exact fun hmem ↦ hsharp (hsuffix.subset hmem)
  case path_head =>
    intro c hc
    obtain ⟨path, hcons⟩ : ∃ path, r.path = c :: path := by
      cases hr : r.path with
      | nil => simp [hr] at hc
      | cons d path => exact ⟨path, by simpa [hr] using hc⟩
    have hmem : c ∈ r.path := by simp [hcons]
    have htail : c ∈ tail.head? := by
      obtain ⟨more, hmore⟩ := hhead.trans hbefore
      rw [← hmore, hcons]
      rfl
    have hdelimiter := hstop c htail
    simp only [isDelimiter, Bool.or_eq_true, beq_iff_eq] at hdelimiter
    rcases hdelimiter with (rfl | rfl) | rfl
    · rfl
    · exact absurd hmem hquestion
    · exact absurd (hhead.subset hmem) hsharp
  case safe =>
    intro c hc
    refine mem_clean (hrest.subset ?_)
    simp only [List.mem_append, List.mem_cons] at hc ⊢
    rcases hc with ((hc | hc) | hc) | hc
    · exact .inr (.inr (.inl hc))
    · exact .inr (.inr (.inr ((hhead.trans hbefore).subset hc)))
    · exact .inr (.inr (.inr (hbefore.subset (hsuffix.subset hc))))
    · exact .inr (.inr (.inr (hafter.subset hc)))

theorem IsScheme.ne_nil (h : IsScheme s) : s ≠ [] := by
  rintro rfl
  simpa using h.head

theorem WellFormed.urlunsplit_eq (h : r.WellFormed) :
    urlunsplit r = r.scheme ++ ':' :: '/' :: '/' :: (r.netloc ++ r.target) := by
  have hscheme : r.scheme.isEmpty = false := by simpa using h.scheme.ne_nil
  have hnetloc : r.netloc.isEmpty = false := by simpa using h.netloc_ne
  have hpath : (!r.path.isEmpty && !startswith ['/'] r.path) = false := by
    cases hr : r.path with
    | nil => rfl
    | cons c path =>
        have hc : c = '/' := h.path_head c (by simp [hr])
        simp [startswith, hc]
  unfold urlunsplit unsplitNetloc target
  simp only [hscheme, hnetloc, hpath, Bool.not_false, if_true, Bool.false_eq_true, if_false]
  cases r.query.isEmpty <;> cases r.fragment.isEmpty <;> simp

/-- The characters of a URL that was put together need no cleaning. -/
theorem WellFormed.clean_urlunsplit (h : r.WellFormed) : clean (urlunsplit r) = urlunsplit r := by
  refine clean_eq_self (fun c hc hunsafe ↦ ?_) fun c hc ↦ ?_
  · have hscheme : c ∉ r.scheme := by
      intro hmem
      have := List.all_eq_true.mp h.scheme.chars c hmem
      simp only [isUnsafe, Bool.or_eq_true, beq_iff_eq] at hunsafe
      rcases hunsafe with (rfl | rfl) | rfl <;> exact absurd this (by decide)
    have hrest : c ∉ r.netloc ++ r.path ++ r.query ++ r.fragment := fun hmem ↦
      h.safe c hmem hunsafe
    have hmarks : c ∉ [':', '/', '?', '#'] := by
      intro hmem
      simp only [List.mem_cons, List.not_mem_nil, or_false] at hmem
      rcases hmem with rfl | rfl | rfl | rfl <;> exact absurd hunsafe (by decide)
    rw [h.urlunsplit_eq] at hc
    unfold target at hc
    simp only [List.mem_append, List.mem_cons, List.not_mem_nil, or_false, not_or]
      at hc hrest hmarks
    have hquery : c ∉ if r.query.isEmpty then [] else '?' :: r.query := by
      split <;> simp [hmarks, hrest]
    have hfragment : c ∉ if r.fragment.isEmpty then [] else '#' :: r.fragment := by
      split <;> simp [hmarks, hrest]
    tauto
  · rw [h.urlunsplit_eq] at hc
    have halpha := h.scheme.head
    cases hs : r.scheme with
    | nil => exact absurd hs h.scheme.ne_nil
    | cons d s =>
        rw [hs] at hc halpha
        obtain rfl : d = c := by simpa using hc
        have halpha : isAsciiAlpha d := by simpa using halpha
        simp only [isAsciiAlpha, Bool.or_eq_true, Bool.and_eq_true, decide_eq_true_eq] at halpha
        rcases halpha with halpha | halpha
        · exact lt_of_lt_of_le (by decide) halpha.1
        · exact lt_of_lt_of_le (by decide) halpha.1

theorem WellFormed.partition_target (h : r.WellFormed) :
    (partition '#' r.target).2.2 = r.fragment ∧
      (partition '?' (partition '#' r.target).1).1 = r.path ∧
      (partition '?' (partition '#' r.target).1).2.2 = r.query := by
  have hbefore : '#' ∉ r.path ++ if r.query.isEmpty then [] else '?' :: r.query := by
    have := h.path_free.2
    have := h.query_free
    split <;> simp [*]
  have hsharp : partition '#' r.target =
      (r.path ++ (if r.query.isEmpty then [] else '?' :: r.query), !r.fragment.isEmpty,
        r.fragment) := by
    unfold target
    cases hf : r.fragment with
    | nil => simpa using partition_of_notMem hbefore
    | cons c fragment => simpa using partition_append hbefore
  have hquestion : partition '?' (r.path ++ if r.query.isEmpty then [] else '?' :: r.query) =
      (r.path, !r.query.isEmpty, r.query) := by
    cases hq : r.query with
    | nil => simpa using partition_of_notMem h.path_free.1
    | cons c query => simpa using partition_append h.path_free.1
  rw [hsharp, hquestion]
  exact ⟨rfl, rfl, rfl⟩

/-- What was put together is found again. -/
theorem WellFormed.urlsplit_urlunsplit (h : r.WellFormed) : urlsplit (urlunsplit r) = .ok r := by
  have htarget : ∀ c ∈ r.target.head?, isDelimiter c := by
    intro c hc
    unfold target at hc
    cases hp : r.path with
    | cons d path =>
        have hd := h.path_head d (by simp [hp])
        obtain rfl : d = c := by simpa [hp] using hc
        simp [hd, isDelimiter]
    | nil =>
        cases hq : r.query with
        | cons d query =>
            obtain rfl : '?' = c := by simpa [hp, hq] using hc
            decide
        | nil =>
            cases hf : r.fragment with
            | cons d fragment =>
                obtain rfl : '#' = c := by simpa [hp, hq, hf] using hc
                decide
            | nil => simp [hp, hq, hf] at hc
  have hscheme : splitScheme (clean (urlunsplit r)) =
      (r.scheme, '/' :: '/' :: (r.netloc ++ r.target)) := by
    rw [h.clean_urlunsplit, h.urlunsplit_eq, splitScheme_append h.scheme.head h.scheme.chars,
      h.scheme.lower_eq]
  have hnetloc := splitNetloc_append h.netloc_free htarget
  obtain ⟨hfragment, hpath, hquery⟩ := h.partition_target
  unfold urlsplit
  simp only [hscheme, hnetloc, hfragment, hpath, hquery, h.netloc_brackets]
  rfl

end

end SplitResult

end FeedgateFetcher.Python
