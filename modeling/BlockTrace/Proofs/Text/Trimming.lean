import BlockTrace.Text.Blank
import Mathlib

/-! What is left of a text without the blanks at its ends, and where that stands in the text. -/
namespace BlockTrace.Text

section Ends
variable {c : Char} {u : List Char}

theorem trim_eq_self (hf : ∀ c ∈ u.head?, isBlank c = false)
    (hl : ∀ c ∈ u.getLast?, isBlank c = false) : trim u = u := by
  have hleft : trimLeft u = u := by
    cases u with
    | nil => rfl
    | cons c u => exact List.dropWhile_cons_of_neg (by simp [hf c rfl])
  rw [trim, hleft, trimRight]
  cases hr : u.reverse with
  | nil => rw [← List.reverse_reverse u, hr]; rfl
  | cons c more =>
    have hc : isBlank c = false := hl c (by rw [List.getLast?_eq_head?_reverse, hr]; rfl)
    rw [List.dropWhile_cons_of_neg (by simp [hc]), ← hr, List.reverse_reverse]

theorem trimRight_append_blanks (x : List Char) (hc : isBlank c = false)
    (hu : ∀ b ∈ u, isBlank b) : trimRight (x ++ c :: u) = x ++ [c] := by
  have hd : (u.reverse ++ c :: x.reverse).dropWhile isBlank = c :: x.reverse := by
    rw [List.dropWhile_append_of_pos (by simpa using hu), List.dropWhile_cons_of_neg (by simp [hc])]
  simp [trimRight, hd]

end Ends

/-- In `part` stand `skipped` blanks, then `kept`, then blanks again, and `kept` neither begins nor
ends with one. Of a part that is all blank nothing is kept, and that stands at its end. -/
structure Trims (part kept : List Char) (skipped : Nat) : Prop where
  pieces : ∃ before after, part = before ++ kept ++ after ∧ before.length = skipped ∧
    (∀ c ∈ before, isBlank c) ∧ ∀ c ∈ after, isBlank c
  first : ∀ c ∈ kept.head?, isBlank c = false
  last : ∀ c ∈ kept.getLast?, isBlank c = false
  nothing : kept = [] → skipped = part.length

theorem head?_trimLeft (text : List Char) : ∀ c ∈ (trimLeft text).head?, isBlank c = false := by
  intro c hc
  have hd := List.head?_dropWhile_not isBlank text
  rw [Option.mem_def, trimLeft] at hc
  rw [hc] at hd
  exact hd

/-- What the blanks at the right end leave is where the text begins. -/
theorem trim_append_blanks (text : List Char) :
    trim text ++ (trimLeft text).rtakeWhile isBlank = trimLeft text :=
  List.rdropWhile_append_rtakeWhile

/-- What trimming leaves stands behind the blanks in front. -/
theorem trims_trim (part : List Char) :
    Trims part (trim part) (part.takeWhile isBlank).length where
  pieces := by
    refine ⟨part.takeWhile isBlank, (trimLeft part).rtakeWhile isBlank, ?_, rfl, ?_, ?_⟩
    · rw [List.append_assoc, trim_append_blanks]
      exact List.takeWhile_append_dropWhile.symm
    · intro c hc
      exact List.mem_takeWhile_imp hc
    · intro c hc
      exact List.mem_rtakeWhile_imp hc
  first := by
    intro c hc
    apply head?_trimLeft part
    rw [← trim_append_blanks, List.head?_append, hc]
    rfl
  last := by
    intro c hc
    obtain ⟨hn, rfl⟩ := List.mem_getLast?_eq_getLast hc
    exact Bool.eq_false_iff.2 (List.rdropWhile_last_not isBlank (trimLeft part) hn)
  nothing := by
    intro hn
    have hb : ∀ c ∈ trimLeft part, isBlank c := List.rdropWhile_eq_nil_iff.1 hn
    have he : trimLeft part = [] := by
      cases hl : trimLeft part with
      | nil => rfl
      | cons c rest =>
        have hc := head?_trimLeft part c (by rw [hl]; rfl)
        rw [hb c (by rw [hl]; exact List.mem_cons_self)] at hc
        cases hc
    have ht : part.takeWhile isBlank ++ trimLeft part = part := List.takeWhile_append_dropWhile
    rw [he, List.append_nil] at ht
    rw [ht]

theorem trim_trim (text : List Char) : trim (trim text) = trim text :=
  trim_eq_self (trims_trim text).first (trims_trim text).last

theorem mem_of_mem_trim {text : List Char} {c : Char} (h : c ∈ trim text) : c ∈ text := by
  obtain ⟨before, after, ht, -⟩ := (trims_trim text).pieces
  rw [ht]
  simp [h]

/-- The blanks in front, counted by what is left without them. -/
theorem length_sub_trimLeft (text : List Char) :
    text.length - (trimLeft text).length = (text.takeWhile isBlank).length := by
  have hl := congrArg List.length (List.takeWhile_append_dropWhile (p := isBlank) (l := text))
  rw [List.length_append] at hl
  rw [← hl, trimLeft, Nat.add_sub_cancel]

end BlockTrace.Text
