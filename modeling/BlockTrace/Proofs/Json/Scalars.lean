import BlockTrace.Proofs.Json.Strings

/-! Numbers, and the values that are no arrays and no objects, are read as the grammar says. -/
namespace BlockTrace.Json

section Numbers
variable {text rest digits : List Char}

/-- A number that stands before the text ends there: nothing in front continues it. -/
structure Ends (rest : List Char) : Prop where
  noDigit : ∀ c ∈ rest.head?, c.isDigit = false
  noPoint : rest.head? ≠ some '.'
  noLetter : ∀ c ∈ rest.head?, ¬ (c = 'e' ∨ c = 'E')

theorem ends_of_blanks (h : Blanks text) : Ends text := by
  cases text with
  | nil => exact ⟨by simp, by simp, by simp⟩
  | cons c rest =>
    have hc := h c List.mem_cons_self
    simp only [isSpace, Bool.or_eq_true, decide_eq_true_eq] at hc
    rcases hc with ((rfl | rfl) | rfl) | rfl <;> exact ⟨by simp, by simp, by simp⟩

/-- A comma or a closing mark ends a number, with blanks before it or without. -/
theorem ends_of_mark {blanks : List Char} {mark : Char} (h : Blanks blanks)
    (hm : mark ∈ [',', ']', '\x7d']) (rest : List Char) : Ends (blanks ++ mark :: rest) := by
  cases blanks with
  | nil =>
    simp only [List.mem_cons, List.not_mem_nil, or_false] at hm
    rcases hm with rfl | rfl | rfl <;> exact ⟨by simp, by simp, by simp⟩
  | cons c more =>
    have hc : Ends [c] := ends_of_blanks fun d hd => h d (by simp_all)
    exact ⟨hc.noDigit, hc.noPoint, hc.noLetter⟩

theorem plain_someDigits (h : Digits digits) (hr : ∀ c ∈ rest.head?, c.isDigit = false) :
    plain (someDigits (digits ++ rest)) = .ok (digits, rest) := by
  obtain ⟨hne, hd⟩ := h
  cases digits with
  | nil => exact absurd rfl hne
  | cons d more =>
    rw [List.forall_mem_cons] at hd
    have ht : (more ++ rest).takeWhile Char.isDigit = more := by
      rw [List.takeWhile_append_of_pos hd.2]
      cases rest with
      | nil => simp
      | cons c _ => simp [hr c rfl]
    have hw : (more ++ rest).dropWhile Char.isDigit = rest := by
      rw [List.dropWhile_append_of_pos hd.2]
      cases rest with
      | nil => rfl
      | cons c _ => simp [hr c rfl]
    simp [someDigits, hd.1, ht, hw, plain, Except.map]

theorem Digits.head_isDigit {c : Char} {more : List Char} (h : Digits digits)
    (he : digits ++ rest = c :: more) : c.isDigit := by
  obtain ⟨hne, hd⟩ := h
  cases digits with
  | nil => exact absurd rfl hne
  | cons d ds =>
    obtain ⟨rfl, -⟩ := List.cons.inj he
    exact hd d List.mem_cons_self

theorem digits_of_someDigits (h : plain (someDigits text) = .ok (digits, rest)) :
    Digits digits ∧ text = digits ++ rest := by
  cases text with
  | nil => cases h
  | cons c more =>
    simp only [someDigits] at h
    split at h
    next hc =>
      obtain ⟨rfl, rfl⟩ : c :: more.takeWhile Char.isDigit = digits ∧
          more.dropWhile Char.isDigit = rest := by simpa [plain, Except.map] using h
      refine ⟨⟨by simp, List.forall_mem_cons.2 ⟨hc, fun d hd => List.mem_takeWhile_imp hd⟩⟩, ?_⟩
      simp
    · cases h

private theorem plain_fraction {part : List Char} {f : Option (List Char)} (h : IsFraction part f)
    (hd : ∀ c ∈ rest.head?, c.isDigit = false) (hp : rest.head? ≠ some '.') :
    plain (fraction (part ++ rest)) = .ok (f, rest) := by
  cases h with
  | absent =>
    rw [List.nil_append]
    unfold fraction
    split
    · exact absurd rfl hp
    · rfl
  | @present digits hs =>
    have hm : plain (fraction ('.' :: (digits ++ rest))) =
        (plain (someDigits (digits ++ rest))).map fun p => (some p.1, p.2) := plain_map _ some
    rw [List.cons_append, hm, plain_someDigits hs hd]
    rfl

private theorem isFraction_of_fraction {f : Option (List Char)}
    (h : plain (fraction text) = .ok (f, rest)) :
    ∃ part, IsFraction part f ∧ text = part ++ rest := by
  unfold fraction at h
  split at h
  next more =>
    obtain ⟨digits, hs, rfl⟩ := (plain_map_eq_ok_iff some).1 h
    obtain ⟨hd, rfl⟩ := digits_of_someDigits hs
    exact ⟨_, .present hd, rfl⟩
  next _ =>
    obtain ⟨rfl, rfl⟩ : none = f ∧ text = rest := by
      simpa [plain, Except.map, Parsed.before] using h
    exact ⟨[], .absent, rfl⟩

private theorem plain_signedDigits (hd : Digits digits) (hr : ∀ c ∈ rest.head?, c.isDigit = false) :
    plain (signedDigits (digits ++ rest)) = .ok ((false, digits), rest) := by
  have hm : plain (signedDigits (digits ++ rest)) =
      (plain (someDigits (digits ++ rest))).map fun p => ((false, p.1), p.2) := by
    generalize he : digits ++ rest = text
    unfold signedDigits
    split
    · exact absurd (hd.head_isDigit he) (by decide)
    · exact absurd (hd.head_isDigit he) (by decide)
    · exact plain_map _ _
  rw [hm, plain_someDigits hd hr]
  rfl

private theorem plain_exponent {power : List Char} {e : Option (Bool × List Char)}
    (h : IsExponent power e)
    (hr : Ends rest) : plain (exponent (power ++ rest)) = .ok (e, rest) := by
  have letter {l : Char} (hl : l = 'e' ∨ l = 'E') (more : List Char) :
      plain (exponent (l :: more)) = (plain (signedDigits more)).map fun p => (some p.1, p.2) := by
    simp only [exponent, if_pos hl]
    exact plain_map _ some
  have sign (negative : Bool) {digits : List Char} (hd : Digits digits) :
      ((plain (someDigits (digits ++ rest))).map fun p => ((negative, p.1), p.2)) =
        .ok ((negative, digits), rest) := by
    rw [plain_someDigits hd hr.noDigit]
    rfl
  cases h with
  | absent =>
    cases rest with
    | nil => rfl
    | cons c more =>
      rw [List.nil_append]
      simp only [exponent, if_neg (hr.noLetter c rfl)]
      rfl
  | bare hl hd =>
    rw [List.cons_append, letter hl, plain_signedDigits hd hr.noDigit]
    rfl
  | @plus l digits hl hd =>
    have hs : plain (signedDigits ('+' :: (digits ++ rest))) = .ok ((false, digits), rest) :=
      (plain_map _ _).trans (sign false hd)
    rw [List.cons_append, List.cons_append, letter hl, hs]
    rfl
  | @minus l digits hl hd =>
    have hs : plain (signedDigits ('-' :: (digits ++ rest))) = .ok ((true, digits), rest) :=
      (plain_map _ _).trans (sign true hd)
    rw [List.cons_append, List.cons_append, letter hl, hs]
    rfl

private theorem isExponent_of_exponent {e : Option (Bool × List Char)}
    (h : plain (exponent text) = .ok (e, rest)) :
    ∃ power, IsExponent power e ∧ text = power ++ rest := by
  unfold exponent at h
  split at h
  · obtain ⟨rfl, rfl⟩ : none = e ∧ [] = rest := by
      simpa [plain, Except.map, Parsed.before] using h
    exact ⟨[], .absent, rfl⟩
  next c more =>
    split at h
    next hl =>
      obtain ⟨signed, hs, rfl⟩ := (plain_map_eq_ok_iff some).1 h
      unfold signedDigits at hs
      split at hs
      · obtain ⟨digits, hp, rfl⟩ := (plain_map_eq_ok_iff (false, ·)).1 hs
        obtain ⟨hd, rfl⟩ := digits_of_someDigits hp
        exact ⟨_, .plus hl hd, rfl⟩
      · obtain ⟨digits, hp, rfl⟩ := (plain_map_eq_ok_iff (true, ·)).1 hs
        obtain ⟨hd, rfl⟩ := digits_of_someDigits hp
        exact ⟨_, .minus hl hd, rfl⟩
      · obtain ⟨digits, hp, rfl⟩ := (plain_map_eq_ok_iff (false, ·)).1 hs
        obtain ⟨hd, rfl⟩ := digits_of_someDigits hp
        exact ⟨_, .bare hl hd, rfl⟩
    · obtain ⟨rfl, rfl⟩ : none = e ∧ c :: more = rest := by
        simpa [plain, Except.map, Parsed.before] using h
      exact ⟨[], .absent, rfl⟩

theorem plain_numberText {t : NumberText} (h : IsNumberText text t) (hr : Ends rest) :
    plain (numberText t.negative (text ++ rest)) = .ok (t, rest) := by
  obtain ⟨negative, whole, f, x⟩ := t
  obtain ⟨hw, hz, part, power, hp, he, rfl⟩ := h
  dsimp only at hw hz hp he ⊢
  -- Each part ends where the next one starts, or where the number ends if there is none.
  have hpower : ∀ c ∈ (power ++ rest).head?, c.isDigit = false := by
    cases he with
    | absent => exact hr.noDigit
    | bare hl _ | plus hl _ | minus hl _ => rcases hl with rfl | rfl <;> simp
  have hpoint : (power ++ rest).head? ≠ some '.' := by
    cases he with
    | absent => exact hr.noPoint
    | bare hl _ | plus hl _ | minus hl _ => rcases hl with rfl | rfl <;> simp
  have hpart : ∀ c ∈ (part ++ (power ++ rest)).head?, c.isDigit = false := by
    cases hp with
    | absent => exact hpower
    | present _ => simp
  obtain ⟨h1, hs⟩ := plain_eq_ok_iff.1 (plain_someDigits hw hpart)
  obtain ⟨h2, hf⟩ := plain_eq_ok_iff.1 (plain_fraction hp hpower hpoint)
  obtain ⟨h3, hx⟩ := plain_eq_ok_iff.1 (plain_exponent he hr)
  have hzero : ¬ (1 < whole.length ∧ whole.head? = some '0') := by
    rintro ⟨hl, hh⟩
    exact hz.elim (by omega) fun hne => hne hh
  rw [List.append_assoc, List.append_assoc]
  simp only [numberText, hs, ok_bind, if_neg hzero, hf, hx]
  rfl

private theorem isNumberText_of_numberText {negative : Bool} {t : NumberText}
    (h : plain (numberText negative text) = .ok (t, rest)) :
    ∃ size, IsNumberText size t ∧ t.negative = negative ∧ text = size ++ rest := by
  obtain ⟨hr, h⟩ := plain_eq_ok_iff.1 h
  obtain ⟨⟨whole, afterWhole, hs⟩, hwhole, h⟩ := bind_eq_ok_iff.1 h
  split at h
  · cases h
  next hz =>
    obtain ⟨⟨part, afterPart, hp⟩, hpart, h⟩ := bind_eq_ok_iff.1 h
    obtain ⟨⟨power, left, he⟩, hpower, h⟩ := bind_eq_ok_iff.1 h
    obtain ⟨rfl, rfl⟩ : ⟨negative, whole, part, power⟩ = t ∧ left = rest := by
      simpa [pure, Except.pure] using h
    obtain ⟨hd, rfl⟩ := digits_of_someDigits (plain_eq_ok_iff.2 ⟨hs, hwhole⟩)
    obtain ⟨f, hf, rfl⟩ := isFraction_of_fraction (plain_eq_ok_iff.2 ⟨hp, hpart⟩)
    obtain ⟨x, hx, rfl⟩ := isExponent_of_exponent (plain_eq_ok_iff.2 ⟨he, hpower⟩)
    have hlength : 0 < whole.length := List.length_pos_iff.2 hd.1
    have hzero : whole.length = 1 ∨ whole.head? ≠ some '0' := by
      by_cases hl : 1 < whole.length
      · exact .inr fun hh => hz ⟨hl, hh⟩
      · exact .inl (by omega)
    exact ⟨_, ⟨hd, hzero, f, x, hf, hx, rfl⟩, rfl, by simp⟩

private theorem plain_number {t : NumberText} {v : Value} (h : IsNumberText text t)
    (hv : t.value = .ok v)
    (hr : Ends rest) : plain (number t.negative (text ++ rest)) = .ok (v, rest) := by
  obtain ⟨hs, ht⟩ := plain_eq_ok_iff.1 (plain_numberText h hr)
  simp only [number, ht, ok_bind, hv]
  rfl

theorem isNumberText_of_number {negative : Bool} {v : Value}
    (h : plain (number negative text) = .ok (v, rest)) :
    ∃ size t, IsNumberText size t ∧ t.negative = negative ∧ t.value = .ok v ∧
      text = size ++ rest := by
  obtain ⟨hr, h⟩ := plain_eq_ok_iff.1 h
  obtain ⟨⟨t, left, hs⟩, ht, h⟩ := bind_eq_ok_iff.1 h
  obtain ⟨value, hv, h⟩ := bind_eq_ok_iff.1 h
  obtain ⟨rfl, rfl⟩ : value = v ∧ left = rest := by simpa [pure, Except.pure] using h
  obtain ⟨size, hn, hneg, rfl⟩ := isNumberText_of_numberText (plain_eq_ok_iff.2 ⟨hs, ht⟩)
  exact ⟨size, t, hn, hneg, hv, rfl⟩

end Numbers

section Scalars
variable {text rest : List Char} {v : Value}

private theorem expect_append (word rest : List Char) :
    ∃ h, expect word (word ++ rest) = .ok ⟨rest, h⟩ := by
  induction word with
  | nil => exact ⟨Nat.le_refl _, rfl⟩
  | cons w word ih =>
    obtain ⟨h, he⟩ := ih
    exact ⟨Nat.le_succ_of_le h, by simp [expect, he, Except.map]⟩

private theorem eq_append_of_expect {word : List Char}
    {r : { rest : List Char // rest.length ≤ text.length }} (h : expect word text = .ok r) :
    text = word ++ r.1 := by
  fun_induction expect word text with
  | case1 text =>
    cases h
    rfl
  | case2 => cases h
  | case3 word w text ih =>
    obtain ⟨left, hl, rfl⟩ := map_eq_ok_iff.1 h
    exact congrArg (w :: ·) (ih hl)
  | case4 => cases h

theorem IsNumberText.exists_digit {t : NumberText} (h : IsNumberText text t) :
    ∃ c more, text = c :: more ∧ c.isDigit := by
  obtain ⟨⟨hne, hd⟩, -, part, power, -, -, rfl⟩ := h
  obtain ⟨c, more, hw⟩ := List.exists_cons_of_ne_nil hne
  rw [hw] at hd ⊢
  exact ⟨c, _, rfl, hd c List.mem_cons_self⟩

/-- A number starts with a digit or its sign. -/
theorem IsNumber.exists_head (h : IsNumber text v) :
    ∃ c more, text = c :: more ∧ (c = '-' ∨ c.isDigit) := by
  obtain ⟨t, size, ht, -, rfl⟩ := h
  cases t.negative with
  | true => exact ⟨'-', size, rfl, .inl rfl⟩
  | false =>
    obtain ⟨c, more, rfl, hc⟩ := ht.exists_digit
    exact ⟨c, more, rfl, .inr hc⟩

theorem integer_or_double {t : NumberText} (hv : t.value = .ok v) :
    (∃ n, v = .integer n) ∨ ∃ x, v = .double x := by
  unfold NumberText.value at hv
  split at hv
  next n _ =>
    cases hv
    exact .inl ⟨n, rfl⟩
  · split at hv
    next x _ =>
      cases hv
      exact .inr ⟨_, rfl⟩
    · cases hv

theorem ne_of_isDigit {c d : Char} (hc : c.isDigit) (hd : d.isDigit = false) : c ≠ d := by
  rintro rfl
  simp [hd] at hc

theorem isSpace_of_isDigit {c : Char} (h : c.isDigit) : isSpace c = false := by
  by_contra hs
  have hc : Blanks [c] := by simpa [Blanks] using hs
  simp [(ends_of_blanks hc).noDigit c rfl] at h

private theorem scalar_digit {c : Char} (h : c.isDigit) (rest : List Char) :
    scalar c rest = number false (c :: rest) := by
  unfold scalar
  dsimp only
  split
  case h_6 => rw [if_pos h]
  all_goals exact absurd h (by decide)

/-- A value that is no array and no object does not start like one. -/
theorem IsScalar.exists_head (h : IsScalar text v) :
    ∃ c more, text = c :: more ∧ isSpace c = false ∧ c ≠ '[' ∧ c ≠ ']' ∧ c ≠ '\x7b' := by
  cases h with
  | null => exact ⟨'n', "ull".toList, rfl, rfl, by decide, by decide, by decide⟩
  | yes => exact ⟨'t', "rue".toList, rfl, rfl, by decide, by decide, by decide⟩
  | no => exact ⟨'f', "alse".toList, rfl, rfl, by decide, by decide, by decide⟩
  | string hs =>
    obtain ⟨body, -, rfl⟩ := hs
    exact ⟨'"', _, rfl, rfl, by decide, by decide, by decide⟩
  | number hn =>
    obtain ⟨c, more, rfl, rfl | hc⟩ := hn.exists_head
    · exact ⟨'-', more, rfl, rfl, by decide, by decide, by decide⟩
    · exact ⟨c, more, rfl, isSpace_of_isDigit hc, ne_of_isDigit hc rfl, ne_of_isDigit hc rfl,
        ne_of_isDigit hc rfl⟩

theorem plain_scalar {c : Char} {more : List Char} (h : IsScalar text v) (ht : text = c :: more)
    (hr : Ends rest) : plain (scalar c (more ++ rest)) = .ok (v, rest) := by
  have word (letters : String) {value : Value} (hm : letters.toList = more)
      (hs : scalar c (more ++ rest) = (expect letters.toList (more ++ rest)).map fun r =>
        ⟨value, r.1, Nat.lt_succ_of_le r.2⟩) :
      plain (scalar c (more ++ rest)) = .ok (value, rest) := by
    subst hm
    obtain ⟨hl, he⟩ := expect_append letters.toList rest
    rw [hs, he]
    rfl
  cases h with
  | null =>
    obtain ⟨rfl, hm⟩ := List.cons.inj (show 'n' :: "ull".toList = c :: more from ht)
    exact word "ull" hm rfl
  | yes =>
    obtain ⟨rfl, hm⟩ := List.cons.inj (show 't' :: "rue".toList = c :: more from ht)
    exact word "rue" hm rfl
  | no =>
    obtain ⟨rfl, hm⟩ := List.cons.inj (show 'f' :: "alse".toList = c :: more from ht)
    exact word "alse" hm rfl
  | string hs =>
    obtain ⟨body, he, hp⟩ := plain_string hs rest
    obtain ⟨rfl, rfl⟩ := List.cons.inj (he.symm.trans ht)
    refine (plain_map _ Value.string).trans ?_
    rw [hp]
    rfl
  | number hn =>
    obtain ⟨t, size, hs, hv, he⟩ := hn
    have hp := plain_number hs hv hr
    cases hneg : t.negative with
    | true =>
      rw [hneg, if_pos rfl] at he
      rw [hneg] at hp
      obtain ⟨rfl, rfl⟩ := List.cons.inj (he.symm.trans ht)
      exact (plain_rebound _).trans hp
    | false =>
      rw [hneg, if_neg Bool.false_ne_true] at he
      rw [hneg] at hp
      obtain ⟨d, left, rfl, hd⟩ := hs.exists_digit
      obtain ⟨rfl, rfl⟩ := List.cons.inj (he.symm.trans ht)
      rw [scalar_digit hd]
      exact hp

theorem isScalar_of_scalar {c : Char} (h : plain (scalar c text) = .ok (v, rest)) :
    ∃ core, IsScalar (c :: core) v ∧ text = core ++ rest := by
  have word (letters : String) {value : Value}
      (hs : IsScalar (c :: letters.toList) value)
      (h : plain ((expect letters.toList text).map fun r =>
        (⟨value, r.1, Nat.lt_succ_of_le r.2⟩ : Parsed Value (text.length + 1))) = .ok (v, rest)) :
      ∃ core, IsScalar (c :: core) v ∧ text = core ++ rest := by
    obtain ⟨hl, h⟩ := plain_eq_ok_iff.1 h
    obtain ⟨left, he, hv⟩ := map_eq_ok_iff.1 h
    obtain ⟨rfl, rfl⟩ : value = v ∧ left.1 = rest := by simpa using hv
    exact ⟨_, hs, eq_append_of_expect he⟩
  unfold scalar at h
  dsimp only at h
  split at h
  · exact word "ull" .null h
  · exact word "rue" .yes h
  · exact word "alse" .no h
  · obtain ⟨s, hp, rfl⟩ := (plain_map_eq_ok_iff .string).1 h
    obtain ⟨body, hs, rfl⟩ := isString_of_string hp
    exact ⟨body, .string hs, rfl⟩
  · rw [plain_rebound] at h
    obtain ⟨size, t, hn, hneg, hv, rfl⟩ := isNumberText_of_number h
    exact ⟨size, .number ⟨t, size, hn, hv, by simp [hneg]⟩, rfl⟩
  · split at h
    next hc =>
      obtain ⟨size, t, hn, hneg, hv, he⟩ := isNumberText_of_number h
      obtain ⟨d, more, rfl, -⟩ := hn.exists_digit
      obtain ⟨rfl, rfl⟩ := List.cons.inj he
      exact ⟨more, .number ⟨t, _, hn, hv, by simp [hneg]⟩, rfl⟩
    · cases h

end Scalars

end BlockTrace.Json
