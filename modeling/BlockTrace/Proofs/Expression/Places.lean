import BlockTrace.Proofs.Expression.Accepted
import BlockTrace.Proofs.Text.Trimming
import Mathlib

/-! The way from one place in a text to another. Where the tokens of a text part, the characters
on the way are a text of their own: they have the tokens that they had in the whole text, and with
them the value of the expression that was read there. -/
namespace BlockTrace.Text

/-- On the way from `c` to `d` stand the characters `u`. -/
structure Cursor.Passes (c : Cursor) (u : List Char) (d : Cursor) : Prop where
  rest : c.rest = u ++ d.rest
  offset : d.offset = c.offset + u.length

namespace Cursor.Passes
variable {c d e : Cursor} {u w : List Char}

theorem refl (c : Cursor) : c.Passes [] c :=
  ⟨rfl, rfl⟩

theorem trans (hu : c.Passes u d) (hw : d.Passes w e) : c.Passes (u ++ w) e where
  rest := by rw [hu.rest, hw.rest, List.append_assoc]
  offset := by rw [hw.offset, hu.offset, List.length_append, Nat.add_assoc]

theorem takeWhile (p : Char → Bool) (c : Cursor) :
    c.Passes (c.takeWhile p).1 (c.takeWhile p).2 :=
  ⟨List.takeWhile_append_dropWhile.symm, rfl⟩

theorem skipBlanks (c : Cursor) : c.Passes (c.rest.takeWhile isBlank) c.skipBlanks :=
  takeWhile isBlank c

theorem span (h : c.Passes u d) : Span.between c.offset d.offset = ⟨c.offset, u.length⟩ := by
  rw [Span.between, h.offset, Nat.add_sub_cancel_left]

end Cursor.Passes

end BlockTrace.Text

namespace BlockTrace.Expression
open Text (Cursor isBlank)

section Cut
variable {u r : List Char} {ts : List Token}

/-- The characters that a token is made of. -/
def Token.letters : Token → List Char
  | number digits => digits
  | name letters => letters
  | mark c => [c]

theorem isBlank_of_mem_run {p : Char → Bool} (hp : ∀ {c}, isBlank c → p c = false)
    {text : List Char} {c : Char} (hc : c ∈ text.takeWhile p) : isBlank c = false := by
  rw [Bool.eq_false_iff]
  intro hb
  have hpc : p c := List.mem_takeWhile_imp hc
  rw [hp hb] at hpc
  cases hpc

private theorem filter_run {p : Char → Bool} (hp : ∀ {c}, isBlank c → p c = false)
    (text : List Char) :
    text.filter (!isBlank ·) = text.takeWhile p ++ (text.dropWhile p).filter (!isBlank ·) := by
  conv_lhs => rw [← List.takeWhile_append_dropWhile (p := p) (l := text)]
  rw [List.filter_append, List.filter_eq_self.2]
  intro c hc
  rw [isBlank_of_mem_run hp hc, Bool.not_false]

/-- The tokens of a text are made of all its characters but the blanks. -/
theorem letters_tokens (text : List Char) :
    (tokens text).flatMap Token.letters = text.filter (!isBlank ·) := by
  fun_induction tokens text with
  | case1 => rfl
  | case2 first rest hb ih => rw [ih, List.filter_cons_of_neg (by simp [hb])]
  | case3 first rest hb hf ih =>
    rw [List.flatMap_cons, ih, List.filter_cons_of_pos (by simp [hb]),
      filter_run isDigit_of_isBlank rest]
    rfl
  | case4 first rest hb hf hs ih =>
    rw [List.flatMap_cons, ih, List.filter_cons_of_pos (by simp [hb]),
      filter_run isNameRest_of_isBlank rest]
    rfl
  | case5 first rest hb hf hs ih =>
    rw [List.flatMap_cons, ih, List.filter_cons_of_pos (by simp [hb])]
    rfl

private theorem letters_of_cut (h : tokens (u ++ r) = ts ++ tokens r) :
    ts.flatMap Token.letters = u.filter (!isBlank ·) := by
  have hl := congrArg (List.flatMap Token.letters) h
  rw [List.flatMap_append, letters_tokens, letters_tokens, List.filter_append] at hl
  exact (List.append_cancel_right hl).symm

/-- A run that is no longer than `x` ends within `x`. -/
private theorem run_append {p : Char → Bool} {x y : List Char}
    (h : ((x ++ y).takeWhile p).length ≤ x.length) :
    (x ++ y).takeWhile p = x.takeWhile p ∧ (x ++ y).dropWhile p = x.dropWhile p ++ y := by
  induction x with
  | nil =>
    cases y with
    | nil => exact ⟨rfl, rfl⟩
    | cons c y =>
      have hc : ¬ p c := fun hc => by simp [hc] at h
      simp [hc]
  | cons c x ih =>
    by_cases hc : p c
    · simp only [List.cons_append, List.takeWhile_cons_of_pos hc, List.length_cons,
        Nat.add_le_add_iff_right] at h
      simp [hc, ih h]
    · simp [hc]

/-- A run that ends within `x` in front of a character ends there whatever comes behind it. -/
private theorem run_append_cons {p : Char → Bool} {x y : List Char} {c : Char}
    (h : (x ++ c :: y).takeWhile p = x.takeWhile p) (z : List Char) :
    (x ++ c :: z).takeWhile p = x.takeWhile p ∧
      (x ++ c :: z).dropWhile p = x.dropWhile p ++ c :: z := by
  induction x with
  | nil =>
    have hc : ¬ p c := fun hc => by simp [hc] at h
    simp [hc]
  | cons d x ih =>
    by_cases hd : p d
    · simp only [List.cons_append, List.takeWhile_cons_of_pos hd, List.cons.injEq, true_and] at h
      simp [hd, ih h]
    · simp [hd]

/-- The first token of a text stands in front of every place where its tokens part. -/
private theorem head_of_cut {first : Char} {rest : List Char} {t : Token} {more : List Token}
    (hb : ¬ isBlank first) (hl : ts.flatMap Token.letters = (first :: rest).filter (!isBlank ·))
    (h : t :: more = ts ++ tokens r) : ∃ us, ts = t :: us ∧ more = us ++ tokens r := by
  cases ts with
  | nil => simp [hb] at hl
  | cons t' us =>
    obtain ⟨rfl, hm⟩ := List.cons.inj h
    exact ⟨us, rfl, hm⟩

/-- A run that went on over such a place would be longer than what it is made of. -/
private theorem run_of_cut {p : Char → Bool} {first : Char} {rest : List Char} {t : Token}
    {us : List Token} (ht : t.letters = first :: (rest ++ r).takeWhile p)
    (hl : (t :: us).flatMap Token.letters = (first :: rest).filter (!isBlank ·)) :
    (rest ++ r).takeWhile p = rest.takeWhile p ∧
      (rest ++ r).dropWhile p = rest.dropWhile p ++ r := by
  apply run_append
  have hf := List.length_filter_le (!isBlank ·) (first :: rest)
  rw [← hl, List.flatMap_cons, ht] at hf
  simp only [List.length_append, List.length_cons] at hf
  omega

/-- Where the tokens of a text part, those in front of the place are the tokens of the text in
front of it. -/
theorem tokens_of_cut (h : tokens (u ++ r) = ts ++ tokens r) : tokens u = ts := by
  fun_induction tokens u generalizing ts with
  | case1 => exact (List.self_eq_append_left.1 h).symm
  | case2 first rest hb ih =>
    rw [List.cons_append, tokens_blank hb] at h
    exact ih h
  | case3 first rest hb hf ih =>
    have hl := letters_of_cut h
    rw [List.cons_append, tokens, if_neg hb, if_pos hf] at h
    obtain ⟨us, rfl, ht⟩ := head_of_cut hb hl h
    obtain ⟨hrun, hrest⟩ := run_of_cut rfl hl
    rw [hrest] at ht
    rw [hrun, ih ht]
  | case4 first rest hb hf hs ih =>
    have hl := letters_of_cut h
    rw [List.cons_append, tokens, if_neg hb, if_neg hf, if_pos hs] at h
    obtain ⟨us, rfl, ht⟩ := head_of_cut hb hl h
    obtain ⟨hrun, hrest⟩ := run_of_cut rfl hl
    rw [hrest] at ht
    rw [hrun, ih ht]
  | case5 first rest hb hf hs ih =>
    have hl := letters_of_cut h
    rw [List.cons_append, tokens, if_neg hb, if_neg hf, if_neg hs] at h
    obtain ⟨us, rfl, ht⟩ := head_of_cut hb hl h
    rw [ih ht]

/-- Whether the tokens part in front of a character does not hang on what comes behind it. -/
theorem tokens_append_of_cut {c : Char} (h : tokens (u ++ c :: r) = ts ++ tokens (c :: r))
    (z : List Char) : tokens (u ++ c :: z) = ts ++ tokens (c :: z) := by
  fun_induction tokens u generalizing ts with
  | case1 =>
    obtain rfl := List.self_eq_append_left.1 h
    rfl
  | case2 first rest hb ih =>
    rw [List.cons_append, tokens_blank hb] at h ⊢
    exact ih h
  | case3 first rest hb hf ih =>
    have hl := letters_of_cut h
    rw [List.cons_append, tokens, if_neg hb, if_pos hf] at h ⊢
    obtain ⟨us, rfl, ht⟩ := head_of_cut hb hl h
    obtain ⟨hrun, hrest⟩ := run_of_cut rfl hl
    obtain ⟨hz, hd⟩ := run_append_cons hrun z
    rw [hrest] at ht
    rw [hz, hd, hrun, ih ht, List.cons_append]
  | case4 first rest hb hf hs ih =>
    have hl := letters_of_cut h
    rw [List.cons_append, tokens, if_neg hb, if_neg hf, if_pos hs] at h ⊢
    obtain ⟨us, rfl, ht⟩ := head_of_cut hb hl h
    obtain ⟨hrun, hrest⟩ := run_of_cut rfl hl
    obtain ⟨hz, hd⟩ := run_append_cons hrun z
    rw [hrest] at ht
    rw [hz, hd, hrun, ih ht, List.cons_append]
  | case5 first rest hb hf hs ih =>
    have hl := letters_of_cut h
    rw [List.cons_append, tokens, if_neg hb, if_neg hf, if_neg hs] at h ⊢
    obtain ⟨us, rfl, ht⟩ := head_of_cut hb hl h
    rw [ih ht, List.cons_append]

end Cut

section Passed
variable {vars : Variables} {c d : Cursor} {u : List Char} {v : Int32}

theorem skipBlanks_skipBlanks (c : Cursor) : c.skipBlanks.skipBlanks = c.skipBlanks := by
  cases hr : c.skipBlanks.rest with
  | nil => simp [Cursor.skipBlanks, Cursor.takeWhile, show c.rest.dropWhile isBlank = [] from hr]
  | cons first rest => exact skipBlanks_of_head hr (isBlank_head_skipBlanks hr)

theorem passes_of_accept? {α : Type} {f : Char → Option α} {a : α}
    (h : c.skipBlanks.accept? f = some (a, d)) :
    ∃ m, f m = some a ∧ c.Passes (c.rest.takeWhile isBlank ++ [m]) d := by
  obtain ⟨m, hm, hr, ho⟩ := accept?_eq_some_iff.1 h
  exact ⟨m, hm, (Cursor.Passes.skipBlanks c).trans ⟨hr, ho⟩⟩

theorem spells_from_skipBlanks {phrase : Phrase} :
    Spells vars phrase c.skipBlanks v d ↔ Spells vars phrase c v d := by
  rw [Spells, tokens_skipBlanks, Spells]

theorem spells_to_skipBlanks {phrase : Phrase} :
    Spells vars phrase c v d.skipBlanks ↔ Spells vars phrase c v d := by
  rw [Spells, tokens_skipBlanks, Spells]

/-- The characters on the way over an expression are an expression of the same value. -/
theorem evaluate_of_passes (hs : Spells vars .expression c v d) (hp : c.Passes u d) :
    evaluate vars u = .ok v := by
  obtain ⟨ts, tree, ht, hv, hc⟩ := hs
  rw [hp.rest] at hc
  exact evaluate_eq_ok_iff.2 ⟨tree, tokens_of_cut hc ▸ ht, hv⟩

end Passed

end BlockTrace.Expression
