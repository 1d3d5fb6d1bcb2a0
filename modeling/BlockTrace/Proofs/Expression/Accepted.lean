import BlockTrace.Proofs.Expression.Derivation
import BlockTrace.Proofs.Text.Trimming
import Mathlib

/-! What stands in a text that has a value. Its tokens decide the value, so that blanks at its ends
do not matter; and of the characters that are tokens of their own it holds only those of the
grammar. -/
namespace BlockTrace.Text

def Ranges.points (ranges : Ranges) : List Nat :=
  ranges.flatMap fun range => List.range' range.1 (range.2 + 1 - range.1)

private theorem Ranges.mem_points_of_covers {ranges : Ranges} {n : Nat} (h : ranges.covers n) :
    n ∈ ranges.points := by
  induction ranges with
  | nil => cases h
  | cons range rest ih =>
    obtain ⟨low, high⟩ := range
    rw [points, List.flatMap_cons, List.mem_append]
    by_cases hl : n < low
    · simp [covers, hl] at h
    · by_cases hh : n ≤ high
      · left
        rw [List.mem_range'_1]
        omega
      · right
        simp only [covers, hl, if_false, hh, decide_false, Bool.false_or] at h
        exact ih h

theorem isAlphanumeric_of_isBlank {c : Char} (h : isBlank c) : isAlphanumeric c = false := by
  have hd : ∀ n ∈ blankRanges.points, alphanumericRanges.covers n = false := by
    decide +kernel
  exact hd c.toNat (Ranges.mem_points_of_covers h)

end BlockTrace.Text

namespace BlockTrace.Expression
open Text (Cursor isBlank trim trimLeft)

section Ends
variable {c : Char}

private theorem takeWhile_append_cons {p : Char → Bool} (h : p c = false) (x y : List Char) :
    (x ++ c :: y).takeWhile p = x.takeWhile p ∧
      (x ++ c :: y).dropWhile p = x.dropWhile p ++ c :: y := by
  induction x with
  | nil => simp [h]
  | cons d x ih =>
    by_cases hd : p d
    · simp [hd, ih]
    · simp [hd]

/-- No token goes on over a character that belongs to no number and to no name. -/
theorem tokens_append_cons (hd : c.isDigit = false) (hn : isNameRest c = false)
    (x y : List Char) : tokens (x ++ c :: y) = tokens x ++ tokens (c :: y) := by
  fun_induction tokens x with
  | case1 => rfl
  | case2 first rest hb ih => rw [List.cons_append, tokens_blank hb, ih]
  | case3 first rest hb hf ih =>
    obtain ⟨ht, he⟩ := takeWhile_append_cons hd rest y
    rw [List.cons_append, tokens, if_neg hb, if_pos hf, ht, he, ih, List.cons_append]
  | case4 first rest hb hf hs ih =>
    obtain ⟨ht, he⟩ := takeWhile_append_cons hn rest y
    rw [List.cons_append, tokens, if_neg hb, if_neg hf, if_pos hs, ht, he, ih, List.cons_append]
  | case5 first rest hb hf hs ih =>
    rw [List.cons_append, tokens, if_neg hb, if_neg hf, if_neg hs, ih, List.cons_append]

/-- Such a character is a token wherever it stands, unless it is a blank. -/
theorem mark_mem_tokens {text : List Char} (hd : c.isDigit = false) (hn : isNameRest c = false)
    (hb : isBlank c = false) (h : c ∈ text) : .mark c ∈ tokens text := by
  obtain ⟨x, y, rfl⟩ := List.append_of_mem h
  have hs : isNameStart c = false := by
    rw [Bool.eq_false_iff]
    intro hs
    rw [isNameRest_of_isNameStart hs] at hn
    cases hn
  have hm : isMark c := by simp [isMark, hb, hd, hs]
  rw [tokens_append_cons hd hn, tokens_mark hm]
  simp

theorem isDigit_of_isBlank (h : isBlank c) : c.isDigit = false := by
  rw [Bool.eq_false_iff]
  intro hd
  rw [isBlank_of_isDigit hd] at h
  cases h

theorem isNameRest_of_isBlank (h : isBlank c) : isNameRest c = false := by
  have hu : c ≠ '_' := by
    rintro rfl
    revert h
    decide
  simp [isNameRest, Text.isAlphanumeric_of_isBlank h, hu]

private theorem tokens_append_blanks (x : List Char) {blanks : List Char}
    (h : ∀ c ∈ blanks, isBlank c) : tokens (x ++ blanks) = tokens x := by
  induction blanks generalizing x with
  | nil => rw [List.append_nil]
  | cons c blanks ih =>
    have hc : isBlank c := h c List.mem_cons_self
    have hr : tokens blanks = [] := by
      simpa [tokens_nil] using ih [] fun d hd => h d (List.mem_cons_of_mem c hd)
    rw [tokens_append_cons (isDigit_of_isBlank hc) (isNameRest_of_isBlank hc), tokens_blank hc, hr,
      List.append_nil]

/-- Blanks at the ends of a text are no part of its tokens. -/
theorem tokens_trim (text : List Char) : tokens (trim text) = tokens text := by
  calc tokens (trim text)
    _ = tokens (trim text ++ (trimLeft text).rtakeWhile isBlank) :=
      (tokens_append_blanks _ fun _ hc => List.mem_rtakeWhile_imp hc).symm
    _ = tokens (trimLeft text) := by rw [Text.trim_append_blanks]
    _ = tokens text := tokens_skipBlanks (Cursor.start text)

end Ends

section Accepted
variable {vars : Variables} {text : List Char} {v : Int32}

/-- A value is that of the tree that the tokens have. -/
theorem evaluate_eq_ok_iff :
    evaluate vars text = .ok v ↔
      ∃ tree, Derives .expression (tokens text) tree ∧ tree.evaluate vars = .ok v := by
  constructor
  · exact derives_of_evaluate vars text
  · rintro ⟨tree, ht, hv⟩
    exact mapError_eq_ok_iff.1 ((evaluate_of_derives vars text ht).trans hv)

theorem evaluate_trim_eq_ok_iff :
    evaluate vars (trim text) = .ok v ↔ evaluate vars text = .ok v := by
  rw [evaluate_eq_ok_iff, tokens_trim, evaluate_eq_ok_iff]

/-- The characters that are tokens of the grammar. -/
def grammarMarks : List Char :=
  ['(', ')', '+', '-', '*', '/', '%']

private theorem mem_grammarMarks_of_derives {phrase : Phrase} {ts : List Token} {tree : Tree}
    {m : Char} (h : Derives phrase ts tree) (hm : .mark m ∈ ts) : m ∈ grammarMarks := by
  induction h with
  | literal digits => simp at hm
  | name letters => simp at hm
  | group _ ih =>
    simp only [List.mem_cons, List.mem_append, Token.mark.injEq, List.not_mem_nil, or_false] at hm
    rcases hm with rfl | hm | rfl
    · decide
    · exact ih hm
    · decide
  | factor _ ih => exact ih hm
  | term _ ih => exact ih hm
  | product op _ _ ihl ihr =>
    simp only [List.mem_append, List.mem_cons, Token.mark.injEq] at hm
    rcases hm with hm | rfl | hm
    · exact ihl hm
    · cases op <;> decide
    · exact ihr hm
  | sum op _ _ ihl ihr =>
    simp only [List.mem_append, List.mem_cons, Token.mark.injEq] at hm
    rcases hm with hm | rfl | hm
    · exact ihl hm
    · cases op <;> decide
    · exact ihr hm

/-- A text with a value holds no character that the grammar has no use for. -/
theorem mem_grammarMarks_of_evaluate {c : Char} (h : evaluate vars text = .ok v) (hc : c ∈ text)
    (hd : c.isDigit = false) (hn : isNameRest c = false) (hb : isBlank c = false) :
    c ∈ grammarMarks := by
  obtain ⟨tree, ht, -⟩ := evaluate_eq_ok_iff.1 h
  exact mem_grammarMarks_of_derives ht (mark_mem_tokens hd hn hb hc)

end Accepted

end BlockTrace.Expression
