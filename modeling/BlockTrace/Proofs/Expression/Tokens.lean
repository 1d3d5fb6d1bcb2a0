import BlockTrace.Expression.Evaluation

/-! The tokens of an expression. Blanks only separate them, numbers and names are as long as they
can be, and every other character stands alone. -/
namespace BlockTrace.Expression
open Text (Cursor isBlank)

inductive Token
  | number (digits : List Char)
  | name (letters : List Char)
  | mark (c : Char)
  deriving DecidableEq, Repr

def tokens : List Char → List Token
  | [] => []
  | c :: rest =>
    if isBlank c then tokens rest
    else if c.isDigit then
      .number (c :: rest.takeWhile Char.isDigit) :: tokens (rest.dropWhile Char.isDigit)
    else if isNameStart c then
      .name (c :: rest.takeWhile isNameRest) :: tokens (rest.dropWhile isNameRest)
    else .mark c :: tokens rest
termination_by text => text.length
decreasing_by
  · simp
  · exact Nat.lt_succ_of_le (Cursor.length_dropWhile_le _ rest)
  · exact Nat.lt_succ_of_le (Cursor.length_dropWhile_le _ rest)
  · simp

/-- A character that is a token of its own. -/
def isMark (c : Char) : Bool :=
  !isBlank c && !c.isDigit && !isNameStart c

theorem isBlank_of_isMark {m : Char} (h : isMark m) : isBlank m = false := by
  simp only [isMark, Bool.and_eq_true, Bool.not_eq_true'] at h
  exact h.1.1

theorem tokens_nil : tokens [] = [] := by
  rw [tokens]

theorem tokens_blank {c : Char} (h : isBlank c) (rest : List Char) :
    tokens (c :: rest) = tokens rest := by
  rw [tokens, if_pos h]

theorem tokens_mark {c : Char} (h : isMark c) (rest : List Char) :
    tokens (c :: rest) = .mark c :: tokens rest := by
  simp only [isMark, Bool.and_eq_true, Bool.not_eq_true'] at h
  rw [tokens]
  simp [h.1.1, h.1.2, h.2]

private theorem toNat_of_isDigit {c : Char} (h : c.isDigit) : 48 ≤ c.toNat ∧ c.toNat ≤ 57 := by
  change (decide (48 ≤ c.val) && decide (c.val ≤ 57)) = true at h
  simpa [UInt32.le_iff_toNat_le] using h

private theorem toNat_of_isNameStart {c : Char} (h : isNameStart c) :
    65 ≤ c.toNat ∧ c.toNat ≤ 122 := by
  simp only [isNameStart, Bool.or_eq_true, decide_eq_true_eq] at h
  rcases h with h | rfl
  · have hc : 65 ≤ c.toNat ∧ c.toNat ≤ 90 ∨ 97 ≤ c.toNat ∧ c.toNat ≤ 122 := by
      change (decide (65 ≤ c.val ∧ c.val ≤ 90) || (97 ≤ c.val && c.val ≤ 122)) = true at h
      simpa [UInt32.le_iff_toNat_le] using h
    omega
  · decide

/-- Digits and letters are no blanks. -/
private theorem isBlank_of_toNat {c : Char} (h : 33 ≤ c.toNat ∧ c.toNat ≤ 132) :
    isBlank c = false := by
  simp only [isBlank, Text.blankRanges, Text.Ranges.covers]
  have h1 : ¬ c.toNat < 9 := by omega
  have h2 : ¬ c.toNat ≤ 13 := by omega
  have h3 : ¬ c.toNat < 32 := by omega
  have h4 : ¬ c.toNat ≤ 32 := by omega
  have h5 : c.toNat < 133 := by omega
  simp [h1, h2, h3, h4, h5]

theorem isBlank_of_isDigit {c : Char} (h : c.isDigit) : isBlank c = false :=
  isBlank_of_toNat (by have := toNat_of_isDigit h; omega)

theorem isBlank_of_isNameStart {c : Char} (h : isNameStart c) : isBlank c = false :=
  isBlank_of_toNat (by have := toNat_of_isNameStart h; omega)

theorem isDigit_of_isNameStart {c : Char} (h : isNameStart c) : c.isDigit = false := by
  rw [Bool.eq_false_iff]
  intro hd
  have h1 := toNat_of_isDigit hd
  have h2 := toNat_of_isNameStart h
  omega

section Cursor
variable {c d : Cursor} {us : List Token}

private theorem tokens_dropWhile_isBlank (text : List Char) :
    tokens (text.dropWhile isBlank) = tokens text := by
  induction text with
  | nil => rfl
  | cons c rest ih =>
    by_cases h : isBlank c
    · rw [List.dropWhile_cons_of_pos h, ih, tokens_blank h]
    · rw [List.dropWhile_cons_of_neg h]

theorem tokens_skipBlanks (c : Cursor) : tokens c.skipBlanks.rest = tokens c.rest :=
  tokens_dropWhile_isBlank c.rest

theorem isBlank_head_skipBlanks {first : Char} {rest : List Char}
    (h : c.skipBlanks.rest = first :: rest) : isBlank first = false := by
  have hh := List.head?_dropWhile_not isBlank c.rest
  change c.rest.dropWhile isBlank = first :: rest at h
  rw [h] at hh
  simpa using hh

/-- Nothing is skipped where no blank stands. -/
theorem skipBlanks_of_head {first : Char} {rest : List Char} (hr : c.rest = first :: rest)
    (hb : isBlank first = false) : c.skipBlanks = c := by
  obtain ⟨_, offset⟩ := c
  subst hr
  simp [Cursor.skipBlanks, Cursor.takeWhile, hb]

theorem tokens_of_end (h : c.skipBlanks.rest = []) : tokens c.rest = [] := by
  rw [← tokens_skipBlanks, h, tokens_nil]

theorem tokens_of_digit {first : Char} {rest : List Char} (h : c.skipBlanks.rest = first :: rest)
    (hd : first.isDigit) :
    tokens c.rest = .number (c.skipBlanks.takeWhile Char.isDigit).1 ::
      tokens (c.skipBlanks.takeWhile Char.isDigit).2.rest := by
  rw [← tokens_skipBlanks, h, tokens, if_neg (by simp [isBlank_of_isDigit hd]), if_pos hd]
  simp [Cursor.takeWhile, h, hd]

theorem tokens_of_nameStart {first : Char} {rest : List Char}
    (h : c.skipBlanks.rest = first :: rest) (hs : isNameStart first) :
    tokens c.rest = .name (c.skipBlanks.takeWhile isNameRest).1 ::
      tokens (c.skipBlanks.takeWhile isNameRest).2.rest := by
  rw [← tokens_skipBlanks, h, tokens, if_neg (by simp [isBlank_of_isNameStart hs]),
    if_neg (by simp [isDigit_of_isNameStart hs]), if_pos hs]
  simp [Cursor.takeWhile, h, isNameRest_of_isNameStart hs]

theorem tokens_of_mark {first : Char} {rest : List Char} (h : c.skipBlanks.rest = first :: rest)
    (hm : isMark first) : tokens c.rest = .mark first :: tokens rest := by
  rw [← tokens_skipBlanks, h, tokens_mark hm]

/-- After the blanks stands the end, or a character that decides what the next token is. -/
theorem tokens_cases (c : Cursor) :
    (c.skipBlanks.rest = [] ∧ tokens c.rest = []) ∨
    ∃ first rest, c.skipBlanks.rest = first :: rest ∧
      (first.isDigit ∧ tokens c.rest = .number (c.skipBlanks.takeWhile Char.isDigit).1 ::
          tokens (c.skipBlanks.takeWhile Char.isDigit).2.rest ∨
        isNameStart first ∧ tokens c.rest = .name (c.skipBlanks.takeWhile isNameRest).1 ::
          tokens (c.skipBlanks.takeWhile isNameRest).2.rest ∨
        isMark first ∧ tokens c.rest = .mark first :: tokens rest) := by
  cases hr : c.skipBlanks.rest with
  | nil => exact .inl ⟨rfl, tokens_of_end hr⟩
  | cons first rest =>
    refine .inr ⟨first, rest, rfl, ?_⟩
    by_cases hd : first.isDigit
    · exact .inl ⟨hd, tokens_of_digit hr hd⟩
    · by_cases hs : isNameStart first
      · exact .inr (.inl ⟨hs, tokens_of_nameStart hr hs⟩)
      · have hm : isMark first := by simp [isMark, isBlank_head_skipBlanks hr, hd, hs]
        exact .inr (.inr ⟨hm, tokens_of_mark hr hm⟩)

theorem end_of_tokens (h : tokens c.rest = []) : c.skipBlanks.rest = [] := by
  obtain ⟨hr, _⟩ | ⟨first, rest, _, ⟨_, ht⟩ | ⟨_, ht⟩ | ⟨_, ht⟩⟩ := tokens_cases c
  · exact hr
  all_goals simp [ht] at h

theorem digit_of_tokens {digits : List Char} (h : tokens c.rest = .number digits :: us) :
    ∃ first rest, c.skipBlanks.rest = first :: rest ∧ first.isDigit ∧
      (c.skipBlanks.takeWhile Char.isDigit).1 = digits ∧
      tokens (c.skipBlanks.takeWhile Char.isDigit).2.rest = us := by
  obtain ⟨_, ht⟩ | ⟨first, rest, hr, ⟨hd, ht⟩ | ⟨_, ht⟩ | ⟨_, ht⟩⟩ := tokens_cases c <;>
    simp only [ht, List.cons.injEq, Token.number.injEq, reduceCtorEq, false_and] at h
  exact ⟨first, rest, hr, hd, h.1, h.2⟩

theorem nameStart_of_tokens {letters : List Char} (h : tokens c.rest = .name letters :: us) :
    ∃ first rest, c.skipBlanks.rest = first :: rest ∧ isNameStart first ∧
      (c.skipBlanks.takeWhile isNameRest).1 = letters ∧
      tokens (c.skipBlanks.takeWhile isNameRest).2.rest = us := by
  obtain ⟨_, ht⟩ | ⟨first, rest, hr, ⟨_, ht⟩ | ⟨hs, ht⟩ | ⟨_, ht⟩⟩ := tokens_cases c <;>
    simp only [ht, List.cons.injEq, Token.name.injEq, reduceCtorEq, false_and] at h
  exact ⟨first, rest, hr, hs, h.1, h.2⟩

theorem mark_of_tokens {m : Char} (h : tokens c.rest = .mark m :: us) :
    ∃ rest, c.skipBlanks.rest = m :: rest ∧ isMark m ∧ tokens rest = us := by
  obtain ⟨_, ht⟩ | ⟨first, rest, hr, ⟨_, ht⟩ | ⟨_, ht⟩ | ⟨hm, ht⟩⟩ := tokens_cases c <;>
    simp only [ht, List.cons.injEq, Token.mark.injEq, reduceCtorEq, false_and] at h
  obtain ⟨rfl, rfl⟩ := h
  exact ⟨rest, hr, hm, rfl⟩

end Cursor

section Accept
variable {α : Type} {f : Char → Option α} {a : α} {c d : Cursor} {us : List Token}

theorem accept?_eq_some_iff :
    c.accept? f = some (a, d) ↔
      ∃ first, f first = some a ∧ c.rest = first :: d.rest ∧ d.offset = c.offset + 1 := by
  unfold Cursor.accept? Cursor.next?
  cases hc : c.rest with
  | nil => simp
  | cons first rest =>
    cases d with
    | mk more offset =>
      simp only [Option.map_eq_some_iff, Prod.mk.injEq, Cursor.mk.injEq, List.cons.injEq]
      constructor
      · rintro ⟨b, hb, rfl, rfl, rfl⟩
        exact ⟨first, hb, ⟨rfl, rfl⟩, rfl⟩
      · rintro ⟨m, hm, ⟨rfl, rfl⟩, rfl⟩
        exact ⟨a, hm, rfl, rfl, rfl⟩

theorem ofChar?_of_accept? {first : Char} {rest : List Char}
    (h : c.accept? f = none) (hc : c.rest = first :: rest) : f first = none := by
  cases hf : f first with
  | none => rfl
  | some a =>
    have ha : c.accept? f = some (a, ⟨rest, c.offset + 1⟩) :=
      accept?_eq_some_iff.2 ⟨first, hf, hc, rfl⟩
    rw [h] at ha
    cases ha

/-- What is accepted where only marks have a meaning is the next token. -/
theorem tokens_of_accept? (hf : ∀ m b, f m = some b → isMark m)
    (h : c.skipBlanks.accept? f = some (a, d)) :
    ∃ m, f m = some a ∧ tokens c.rest = .mark m :: tokens d.rest := by
  obtain ⟨m, hm, hr, _⟩ := accept?_eq_some_iff.1 h
  exact ⟨m, hm, tokens_of_mark hr (hf m a hm)⟩

theorem accept?_of_tokens {m : Char} (h : tokens c.rest = .mark m :: us) (hm : f m = some a) :
    ∃ d, c.skipBlanks.accept? f = some (a, d) ∧ tokens d.rest = us := by
  obtain ⟨rest, hr, _, ht⟩ := mark_of_tokens h
  exact ⟨⟨rest, c.skipBlanks.offset + 1⟩, accept?_eq_some_iff.2 ⟨m, hm, hr, rfl⟩, ht⟩

theorem accept?_eq_none_of_tokens (hf : ∀ m b, f m = some b → isMark m)
    (h : ∀ m us, tokens c.rest = .mark m :: us → f m = none) :
    c.skipBlanks.accept? f = none := by
  cases ha : c.skipBlanks.accept? f with
  | none => rfl
  | some p =>
    obtain ⟨m, hm, ht⟩ := tokens_of_accept? hf (show _ = some (p.1, p.2) from ha)
    rw [h m _ ht] at hm
    cases hm

end Accept

end BlockTrace.Expression
