import FeedgateFetcher.Python.Json

/-!
# Scanning JSON

Every scanner leaves less of the text than it was given, and so the fuel of the loops
over items and pairs is never what stops them.  `loads` raises `ValueError`, or
`RecursionError` for a document that is nested too deep, and nothing else.
-/

namespace FeedgateFetcher.Python.Json

/-! ## What is left of a text -/

theorem length_skipWhitespace_le (s : Text) : (skipWhitespace s).length ≤ s.length :=
  (List.dropWhile_sublist _).length_le

theorem length_lt_of_skipWhitespace {s t : Text} {c : Char} (h : skipWhitespace s = c :: t) :
    t.length < s.length := by
  have hlen := length_skipWhitespace_le s
  rw [h, List.length_cons] at hlen
  exact hlen

theorem scanUnits_length {s rest : Text} {units : CodePoints}
    (h : scanUnits s = some (units, rest)) : rest.length < s.length := by
  induction s using scanUnits.induct generalizing units with
  | case1 => cases h
  | case2 s =>
      cases h
      exact Nat.lt_succ_self _
  | case3 a b c d s ih =>
      simp only [scanUnits, Option.bind_eq_bind, Option.bind_eq_some_iff] at h
      obtain ⟨n, _, r, hr, h⟩ := h
      cases h
      have hlt := ih hr
      simp only [List.length_cons]
      omega
  | case4 c s hu ih =>
      rw [scanUnits] at h
      · simp only [Option.bind_eq_bind, Option.bind_eq_some_iff] at h
        obtain ⟨n, _, r, hr, h⟩ := h
        cases h
        have hlt := ih hr
        simp only [List.length_cons]
        omega
      · exact hu
  | case5 c s hquote hu hback hlow =>
      rw [scanUnits, if_pos hlow] at h
      · cases h
      · exact hquote
      · exact hu
      · exact hback
  | case6 c s hquote hu hback hlow ih =>
      rw [scanUnits, if_neg hlow] at h
      · simp only [Option.bind_eq_bind, Option.bind_eq_some_iff] at h
        obtain ⟨r, hr, h⟩ := h
        cases h
        have hlt := ih hr
        simp only [List.length_cons]
        omega
      · exact hquote
      · exact hu
      · exact hback

theorem scanFraction_length {s rest : Text} {ds : List Nat}
    (h : scanFraction s = some (ds, rest)) : rest.length ≤ s.length := by
  unfold scanFraction at h
  split at h
  · next s =>
    dsimp only at h
    split at h
    · cases h
    · cases h
      exact Nat.le_succ_of_le (List.dropWhile_sublist _).length_le
  · cases h

theorem scanExponent_length {s rest : Text} {n : Int}
    (h : scanExponent s = some (n, rest)) : rest.length ≤ s.length := by
  unfold scanExponent at h
  split at h
  · next c s =>
    split at h
    · have hdigits : ∀ {t : Text} {m : Int},
          (if (t.takeWhile isDigit).isEmpty then none else some (m, t.dropWhile isDigit)) =
            some (n, rest) → rest.length ≤ t.length := by
        intro t m ht
        split at ht
        · cases ht
        · cases ht
          exact (List.dropWhile_sublist _).length_le
      dsimp only at h
      split at h
      · exact (hdigits h).trans (Nat.le_add_right _ 2)
      · exact (hdigits h).trans (Nat.le_add_right _ 2)
      · exact (hdigits h).trans (Nat.le_succ _)
    · cases h
  · cases h

theorem scanInteger_length {s rest : Text} {ds : List Nat}
    (h : scanInteger s = some (ds, rest)) : rest.length < s.length := by
  unfold scanInteger at h
  split at h
  · next c s =>
    split at h
    · cases h
      exact Nat.lt_succ_self _
    · split at h
      · cases h
        exact Nat.lt_succ_of_le (List.dropWhile_sublist _).length_le
      · cases h
  · cases h

/-! ## Numbers -/

theorem numberValue_error {negative : Bool} {ds : List Nat} {fraction : Option (List Nat)}
    {exponent : Option Int} {e : Raised}
    (h : numberValue negative ds fraction exponent = .error e) : e = .builtin .valueError := by
  unfold numberValue at h
  split at h
  · split at h
    · cases h
      rfl
    · cases h
  · cases h

/-- `_match_number` after the sign. -/
def scanUnsigned (negative : Bool) : Scanner := fun s ↦
  match scanInteger s with
  | none => .error (.builtin .valueError)
  | some (ds, s) =>
    let (fraction, s) := match scanFraction s with
      | some (fs, s) => (some fs, s)
      | none => (none, s)
    let (exponent, s) := match scanExponent s with
      | some (e, s) => (some e, s)
      | none => (none, s)
    (numberValue negative ds fraction exponent).map fun v ↦ (v, s)

theorem scanNumber_eq (s : Text) :
    ∃ negative t, t.length ≤ s.length ∧ scanNumber s = scanUnsigned negative t := by
  unfold scanNumber
  split
  next negative t ht =>
  split at ht
  · cases ht
    exact ⟨true, _, Nat.le_succ _, rfl⟩
  · cases ht
    exact ⟨false, s, Nat.le_refl _, rfl⟩

/-- A number has a value that its digits decide, and what it leaves is shorter. -/
theorem scanUnsigned_cases (negative : Bool) (s : Text) :
    scanUnsigned negative s = .error (.builtin .valueError) ∨
      ∃ ds fraction exponent rest, rest.length < s.length ∧
        scanUnsigned negative s =
          (numberValue negative ds fraction exponent).map fun v ↦ (v, rest) := by
  unfold scanUnsigned
  cases hint : scanInteger s with
  | none => exact .inl rfl
  | some r =>
      obtain ⟨ds, s₁⟩ := r
      have h₁ := scanInteger_length hint
      right
      cases hfrac : scanFraction s₁ with
      | none =>
          cases hexp : scanExponent s₁ with
          | none => exact ⟨ds, none, none, s₁, h₁, by simp only [hfrac, hexp]⟩
          | some e => exact ⟨ds, none, some e.1, e.2, (scanExponent_length hexp).trans_lt h₁,
              by simp only [hfrac, hexp]⟩
      | some f =>
          have h₂ := scanFraction_length hfrac
          cases hexp : scanExponent f.2 with
          | none => exact ⟨ds, some f.1, none, f.2, h₂.trans_lt h₁, by simp only [hfrac, hexp]⟩
          | some e => exact ⟨ds, some f.1, some e.1, e.2,
              ((scanExponent_length hexp).trans h₂).trans_lt h₁, by simp only [hfrac, hexp]⟩

/-! ## The discipline of scanners -/

/-- A scanner leaves less than it was given, and raises `ValueError` or `RecursionError`. -/
structure IsScanner {α : Type} (scan : Text → Except Raised (α × Text)) : Prop where
  length_lt : ∀ {s v rest}, scan s = .ok (v, rest) → rest.length < s.length
  raises : ∀ {s e}, scan s = .error e → e = .builtin .valueError ∨ e = .recursionError

namespace IsScanner

variable {α β : Type} {scan : Text → Except Raised (α × Text)}

/-- A scanner may start later, and go on with what it read. -/
theorem map (hscan : IsScanner scan) {s t : Text} (ht : t.length ≤ s.length) {f : α → β} :
    (∀ {v rest}, ((scan t).map fun r ↦ (f r.1, r.2)) = .ok (v, rest) →
      rest.length < s.length) ∧
    ∀ {e}, ((scan t).map fun r ↦ (f r.1, r.2)) = .error e →
      e = .builtin .valueError ∨ e = .recursionError := by
  cases hr : scan t with
  | error e' =>
      refine ⟨fun h ↦ ?_, fun h ↦ ?_⟩
      · cases h
      · cases h
        exact hscan.raises hr
  | ok r =>
      refine ⟨fun h ↦ ?_, fun h ↦ ?_⟩
      · cases h
        exact (hscan.length_lt hr).trans_le ht
      · cases h

end IsScanner

theorem isScanner_scanString : IsScanner scanString where
  length_lt {s units rest} h := by
    unfold scanString at h
    split at h
    · next heq =>
      cases h
      exact scanUnits_length heq
    · cases h
  raises {s e} h := by
    unfold scanString at h
    split at h
    · cases h
    · cases h
      exact .inl rfl

theorem isScanner_scanNumber : IsScanner scanNumber where
  length_lt {s v rest} h := by
    obtain ⟨negative, t, ht, heq⟩ := scanNumber_eq s
    rw [heq] at h
    rcases scanUnsigned_cases negative t with herr | ⟨ds, fraction, exponent, r, hr, hok⟩
    · rw [herr] at h
      cases h
    · rw [hok] at h
      cases hv : numberValue negative ds fraction exponent with
      | error e =>
          rw [hv] at h
          cases h
      | ok v =>
          rw [hv] at h
          cases h
          exact hr.trans_le ht
  raises {s e} h := by
    obtain ⟨negative, t, _, heq⟩ := scanNumber_eq s
    rw [heq] at h
    rcases scanUnsigned_cases negative t with herr | ⟨ds, fraction, exponent, r, _, hok⟩
    · rw [herr] at h
      cases h
      exact .inl rfl
    · rw [hok] at h
      cases hv : numberValue negative ds fraction exponent with
      | error e =>
          rw [hv] at h
          cases h
          exact .inl (numberValue_error hv)
      | ok v =>
          rw [hv] at h
          cases h

/-- The loop of both containers: elements between commas, up to a closing character. -/
def scanSeparated {α : Type} (close : Char) (elem : Text → Except Raised (α × Text)) :
    (fuel : Nat) → Text → Except Raised (List α × Text)
  | 0, _ => .error (.builtin .valueError)
  | fuel + 1, s => match elem s with
    | .error e => .error e
    | .ok (v, s) => match skipWhitespace s with
      | c :: s =>
        if c = close then .ok ([v], s)
        else if c = ',' then
          (scanSeparated close elem fuel (skipWhitespace s)).map fun r ↦ (v :: r.1, r.2)
        else .error (.builtin .valueError)
      | [] => .error (.builtin .valueError)

section

variable {α : Type} {close : Char} {elem : Text → Except Raised (α × Text)} {fuel : Nat}
  {s : Text}

theorem isScanner_scanSeparated (helem : IsScanner elem) :
    IsScanner (scanSeparated close elem fuel) := by
  induction fuel with
  | zero =>
      refine ⟨fun h ↦ ?_, fun h ↦ ?_⟩
      · cases h
      · cases h
        exact .inl rfl
  | succ fuel ih =>
      constructor
      · intro s vs rest h
        rw [scanSeparated] at h
        split at h
        · cases h
        · next v s₁ hv =>
          have h₁ := helem.length_lt hv
          split at h
          · next c t ht =>
            have h₂ := length_lt_of_skipWhitespace ht
            split at h
            · cases h
              exact h₂.trans h₁
            · split at h
              · have hlen := (length_skipWhitespace_le t).trans (h₂.trans h₁).le
                exact (ih.map hlen).1 h
              · cases h
          · cases h
      · intro s e h
        rw [scanSeparated] at h
        split at h
        · next e' he =>
          cases h
          exact helem.raises he
        · split at h
          · next c t ht =>
            split at h
            · cases h
            · split at h
              · exact (ih.map (Nat.le_refl _)).2 h
              · cases h
                exact .inl rfl
          · cases h
            exact .inl rfl

/-- Fuel for every character is enough: more of it changes nothing. -/
theorem scanSeparated_fuel (helem : IsScanner elem)
    (hnil : elem [] = .error (.builtin .valueError)) {fuel' : Nat} (h : s.length ≤ fuel)
    (h' : s.length ≤ fuel') :
    scanSeparated close elem fuel s = scanSeparated close elem fuel' s := by
  have hempty : ∀ n, scanSeparated close elem n [] = .error (.builtin .valueError) := by
    intro n
    cases n with
    | zero => rfl
    | succ n => rw [scanSeparated, hnil]
  induction fuel generalizing fuel' s with
  | zero =>
      obtain rfl := List.length_eq_zero_iff.mp (Nat.le_zero.mp h)
      rw [hempty, hempty]
  | succ fuel ih =>
      cases fuel' with
      | zero =>
          obtain rfl := List.length_eq_zero_iff.mp (Nat.le_zero.mp h')
          rw [hempty, hempty]
      | succ fuel' =>
          rw [scanSeparated, scanSeparated]
          cases hv : elem s with
          | error e => rfl
          | ok r =>
              have h₁ := helem.length_lt hv
              simp only
              split
              · next c t ht =>
                have h₂ := length_lt_of_skipWhitespace ht
                have h₃ := length_skipWhitespace_le t
                have hmore : scanSeparated close elem fuel (skipWhitespace t) =
                    scanSeparated close elem fuel' (skipWhitespace t) :=
                  ih (by omega) (by omega)
                rw [hmore]
              · rfl

end

/-! ## Arrays and objects -/

section

variable {item : Scanner} {fuel : Nat} {s : Text}

theorem scanItems_eq : scanItems item fuel s = scanSeparated ']' item fuel s := by
  induction fuel generalizing s with
  | zero => rfl
  | succ fuel ih =>
      rw [scanItems, scanSeparated]
      cases item s with
      | error e => rfl
      | ok r =>
          simp only [bind, Except.bind]
          split
          · next t ht =>
            rw [ht]
            rfl
          · next t ht =>
            rw [ht]
            simp only
            rw [if_neg (by decide), if_pos trivial, ih]
            cases scanSeparated ']' item fuel (skipWhitespace t) with
            | error e => rfl
            | ok r => rfl
          · next hclose hcomma =>
            split
            · next c t ht =>
              rw [if_neg (by rintro rfl; exact hclose t ht),
                if_neg (by rintro rfl; exact hcomma t ht)]
              rfl
            · rfl

/-- The key of a pair, and the text from its value on. -/
def scanKey (s : Text) : Except Raised (CodePoints × Text) :=
  match s with
  | '"' :: s => match scanString s with
    | .error e => .error e
    | .ok (key, s) => match skipWhitespace s with
      | ':' :: s => .ok (key, skipWhitespace s)
      | _ => .error (.builtin .valueError)
  | _ => .error (.builtin .valueError)

/-- A pair of an object. -/
def scanPair (item : Scanner) (s : Text) : Except Raised ((CodePoints × Json) × Text) :=
  match scanKey s with
  | .error e => .error e
  | .ok (key, s) => (item s).map fun r ↦ ((key, r.1), r.2)

theorem isScanner_scanKey : IsScanner scanKey where
  length_lt {s key rest} h := by
    unfold scanKey at h
    split at h
    · next s =>
      split at h
      · cases h
      · next k s₁ hs =>
        have h₁ := isScanner_scanString.length_lt hs
        split at h
        · next t ht =>
          cases h
          have h₂ := length_lt_of_skipWhitespace ht
          have h₃ := length_skipWhitespace_le t
          simp only [List.length_cons]
          omega
        · cases h
    · cases h
  raises {s e} h := by
    unfold scanKey at h
    split at h
    · split at h
      · next he =>
        cases h
        exact isScanner_scanString.raises he
      · split at h
        · cases h
        · cases h
          exact .inl rfl
    · cases h
      exact .inl rfl

theorem isScanner_scanPair (hitem : IsScanner item) : IsScanner (scanPair item) where
  length_lt {s kv rest} h := by
    unfold scanPair at h
    split at h
    · cases h
    · next key t ht =>
      exact (hitem.map (isScanner_scanKey.length_lt ht).le).1 h
  raises {s e} h := by
    unfold scanPair at h
    split at h
    · next e' he =>
      cases h
      exact isScanner_scanKey.raises he
    · exact (hitem.map (Nat.le_refl _)).2 h

theorem scanPairs_eq : scanPairs item fuel s = scanSeparated '\x7d' (scanPair item) fuel s := by
  induction fuel generalizing s with
  | zero => rfl
  | succ fuel ih =>
      rw [scanPairs.eq_def item (fuel + 1) s, scanSeparated, scanPair]
      simp only
      split
      · next s =>
        simp only [scanKey, bind, Except.bind]
        cases scanString s with
        | error e => rfl
        | ok r =>
            obtain ⟨key, s₁⟩ := r
            rcases hcolon : skipWhitespace s₁ with _ | ⟨d, s₂⟩
            · simp only [hcolon]
              rfl
            · by_cases hd : d = ':'
              · subst hd
                simp only [hcolon]
                cases item (skipWhitespace s₂) with
                | error e => rfl
                | ok r =>
                    obtain ⟨v, s₃⟩ := r
                    simp only [Except.map]
                    split
                    · next t ht =>
                      rw [ht]
                      rfl
                    · next t ht =>
                      rw [ht]
                      simp only
                      rw [if_neg (by decide), if_pos trivial, ih]
                      cases scanSeparated '\x7d' (scanPair item) fuel (skipWhitespace t) with
                      | error e => rfl
                      | ok r => rfl
                    · next hclose hcomma =>
                      split
                      · next c t ht =>
                        rw [if_neg (by rintro rfl; exact hclose t ht),
                          if_neg (by rintro rfl; exact hcomma t ht)]
                        rfl
                      · rfl
              · simp [hcolon, hd, throw, throwThe, MonadExceptOf.throw]
      · next hquote =>
        have hkey : scanKey s = .error (.builtin .valueError) := by
          unfold scanKey
          split
          · exact (hquote _ rfl).elim
          · rfl
        rw [hkey]

theorem isScanner_scanArray (hitem : IsScanner item) : IsScanner (scanArray item) where
  length_lt {s v rest} h := by
    unfold scanArray at h
    split at h
    · next t ht =>
      cases h
      exact length_lt_of_skipWhitespace ht
    · rw [scanItems_eq] at h
      exact ((isScanner_scanSeparated hitem).map (length_skipWhitespace_le s)).1 h
  raises {s e} h := by
    unfold scanArray at h
    split at h
    · cases h
    · rw [scanItems_eq] at h
      exact ((isScanner_scanSeparated hitem).map (length_skipWhitespace_le s)).2 h

theorem isScanner_scanObject (hitem : IsScanner item) : IsScanner (scanObject item) where
  length_lt {s v rest} h := by
    unfold scanObject at h
    split at h
    · next t ht =>
      cases h
      exact length_lt_of_skipWhitespace ht
    · rw [scanPairs_eq] at h
      exact ((isScanner_scanSeparated (isScanner_scanPair hitem)).map
        (length_skipWhitespace_le s)).1 h
  raises {s e} h := by
    unfold scanObject at h
    split at h
    · cases h
    · rw [scanPairs_eq] at h
      exact ((isScanner_scanSeparated (isScanner_scanPair hitem)).map
        (length_skipWhitespace_le s)).2 h

end

/-! ## Documents -/

theorem isScanner_scanValue {object array : Scanner} (hobject : IsScanner object)
    (harray : IsScanner array) : IsScanner (scanValue object array) where
  length_lt {s v rest} h := by
    unfold scanValue at h
    split at h
    case h_1 => exact (isScanner_scanString.map (Nat.le_succ _)).1 h
    case h_2 => exact (hobject.length_lt h).trans (Nat.lt_succ_self _)
    case h_3 => exact (harray.length_lt h).trans (Nat.lt_succ_self _)
    case h_10 => exact isScanner_scanNumber.length_lt h
    all_goals
      cases h
      simp only [List.length_cons]
      omega
  raises {s e} h := by
    unfold scanValue at h
    split at h
    case h_1 => exact (isScanner_scanString.map (Nat.le_refl _)).2 h
    case h_2 => exact hobject.raises h
    case h_3 => exact harray.raises h
    case h_10 => exact isScanner_scanNumber.raises h
    all_goals cases h

theorem isScanner_scanOnce (depth : Nat) : IsScanner (scanOnce depth) := by
  have hdeep : IsScanner fun _ : Text ↦ (.error .recursionError : Except Raised (Json × Text)) := by
    refine ⟨fun h ↦ ?_, fun h ↦ ?_⟩
    · cases h
    · cases h
      exact .inr rfl
  induction depth with
  | zero => exact isScanner_scanValue hdeep hdeep
  | succ depth ih =>
      exact isScanner_scanValue (isScanner_scanObject ih) (isScanner_scanArray ih)

/-! The loops over the items and pairs of a document end before their fuel does. -/

theorem scanItems_fuel (depth : Nat) {fuel fuel' : Nat} {s : Text} (h : s.length ≤ fuel)
    (h' : s.length ≤ fuel') :
    scanItems (scanOnce depth) fuel s = scanItems (scanOnce depth) fuel' s := by
  have hnil : scanOnce depth [] = .error (.builtin .valueError) := by
    cases depth with
    | zero => rfl
    | succ depth => rfl
  rw [scanItems_eq, scanItems_eq]
  exact scanSeparated_fuel (isScanner_scanOnce depth) hnil h h'

theorem scanPairs_fuel (depth : Nat) {fuel fuel' : Nat} {s : Text} (h : s.length ≤ fuel)
    (h' : s.length ≤ fuel') :
    scanPairs (scanOnce depth) fuel s = scanPairs (scanOnce depth) fuel' s := by
  rw [scanPairs_eq, scanPairs_eq]
  exact scanSeparated_fuel (isScanner_scanPair (isScanner_scanOnce depth)) rfl h h'

/-- A document that cannot be loaded raises one of two exceptions. -/
theorem loads_error {depth : Nat} {s : Text} {e : Raised} (h : loads depth s = .error e) :
    e = .builtin .valueError ∨ e = .recursionError := by
  unfold loads at h
  split at h
  · cases h
    exact .inl rfl
  · cases hv : scanOnce (depth + 1) (skipWhitespace s) with
    | error e' =>
        rw [hv] at h
        cases h
        exact (isScanner_scanOnce _).raises hv
    | ok r =>
        rw [hv] at h
        simp only [bind, Except.bind] at h
        split at h
        · cases h
        · cases h
          exact .inl rfl

end FeedgateFetcher.Python.Json
