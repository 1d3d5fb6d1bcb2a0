import BlockTrace.Proofs.Condition.Cut
import BlockTrace.Proofs.Expression.Accepted
import Mathlib

/-! A condition has a truth value exactly if it can be read as two expressions with an operator
between them, and there is one such reading only. No expression holds a character of an operator, so
the first operator that is found is the only one. -/
namespace BlockTrace.Condition
open Expression (Variables)
open Text (trim)

/-- What an operator says of two numbers. -/
def Operator.Relates : Operator → Int → Int → Prop
  | equal, a, b => a = b
  | notEqual, a, b => a ≠ b
  | atMost, a, b => a ≤ b
  | atLeast, a, b => a ≥ b
  | below, a, b => a < b
  | above, a, b => a > b

instance (op : Operator) (a b : Int) : Decidable (op.Relates a b) :=
  match op with
  | .equal => inferInstanceAs (Decidable (a = b))
  | .notEqual => inferInstanceAs (Decidable (a ≠ b))
  | .atMost => inferInstanceAs (Decidable (a ≤ b))
  | .atLeast => inferInstanceAs (Decidable (a ≥ b))
  | .below => inferInstanceAs (Decidable (a < b))
  | .above => inferInstanceAs (Decidable (a > b))

theorem Operator.holds_iff (op : Operator) (a b : Int32) :
    op.holds a b = true ↔ op.Relates a.toInt b.toInt := by
  cases op <;>
    simp [holds, Relates, ← Int32.toInt_inj, Int32.le_iff_toInt_le, Int32.lt_iff_toInt_lt]

/-- The text is `left`, then `op`, then `right`; both sides have a value, and `holds` says whether
these relate as `op` demands. -/
def Reads (vars : Variables) (text left : List Char) (op : Operator) (right : List Char)
    (holds : Bool) : Prop :=
  text = left ++ op.symbol.toList ++ right ∧
    ∃ a b, Expression.evaluate vars left = .ok a ∧ Expression.evaluate vars right = .ok b ∧
      (holds = true ↔ op.Relates a.toInt b.toInt)

def isOperatorMark (c : Char) : Bool :=
  c ∈ ['=', '!', '<', '>']

def OperatorFree (text : List Char) : Prop :=
  ∀ c ∈ text, isOperatorMark c = false

theorem operatorFree_of_evaluate {vars : Variables} {text : List Char} {v : Int32}
    (h : Expression.evaluate vars text = .ok v) : OperatorFree text := by
  intro c hc
  rw [Bool.eq_false_iff]
  intro hm
  have hg : c ∉ Expression.grammarMarks ∧ c.isDigit = false ∧ Expression.isNameRest c = false ∧
      Text.isBlank c = false := by
    simp only [isOperatorMark, List.mem_cons, List.not_mem_nil, or_false, decide_eq_true_eq] at hm
    rcases hm with rfl | rfl | rfl | rfl <;> decide
  exact hg.1 (Expression.mem_grammarMarks_of_evaluate h hc hg.2.1 hg.2.2.1 hg.2.2.2)

section Search
variable {left right text : List Char} {op : Operator} {index : Nat}

theorem not_starts_of_free {c : Char} (h : isOperatorMark c = false) (rest : List Char)
    (op : Operator) : ¬ op.Starts (c :: rest) := by
  rintro ⟨more, hm⟩
  cases op <;> cases hm <;> cases h

private theorem front?_append (h : OperatorFree right) (op : Operator) :
    Operator.front? (op.symbol.toList ++ right) = some (op, right) := by
  have he : ∀ rest, right ≠ '=' :: rest := by
    rintro rest rfl
    exact absurd (h '=' List.mem_cons_self) (by decide)
  cases op with
  -- By `he` the longer operator with this first character does not match.
  | below | above => simp [Operator.symbol, Operator.front?]
  | _ => rfl

/-- One pass stops at an operator between two parts without one. -/
theorem scan?_append (hl : OperatorFree left) (hr : OperatorFree right) (op : Operator) :
    scan? (left ++ op.symbol.toList ++ right) = some (left, op, right) := by
  induction left with
  | nil =>
    rw [List.nil_append]
    exact scan?_of_front? (front?_append hr op)
  | cons c left ih =>
    have hf : Operator.front? (c :: (left ++ op.symbol.toList ++ right)) = none :=
      Operator.front?_eq_none_iff.2 (not_starts_of_free (hl c List.mem_cons_self) _)
    rw [List.cons_append, List.cons_append, scan?, hf]
    dsimp only
    rw [ih fun d hd => hl d (List.mem_cons_of_mem c hd)]
    rfl

/-- An operator between two parts without one is found where it stands. -/
theorem firstOperator?_append (hl : OperatorFree left) (hr : OperatorFree right) (op : Operator) :
    firstOperator? (left ++ op.symbol.toList ++ right) = some (left.length, op) := by
  rw [firstOperator?_eq_scan?, scan?_append hl hr op]
  rfl

theorem append_of_firstOperator? (h : firstOperator? text = some (index, op)) :
    ∃ left right, text = left ++ op.symbol.toList ++ right ∧ left.length = index := by
  rw [firstOperator?_eq_scan?] at h
  obtain ⟨⟨left, _, right⟩, hs, he⟩ := Option.map_eq_some_iff.1 h
  cases he
  exact ⟨left, right, eq_append_of_scan? hs, rfl⟩

end Search

section Evaluation
variable {vars : Variables} {left right text : List Char} {op : Operator} {holds : Bool}

theorem Comparison.evaluate_eq_ok_iff (c : Comparison) :
    c.evaluate vars = .ok holds ↔
      ∃ a b, Expression.evaluate vars c.left = .ok a ∧ Expression.evaluate vars c.right = .ok b ∧
        (holds = true ↔ c.operator.Relates a.toInt b.toInt) := by
  constructor
  · intro h
    obtain ⟨a, ha, h⟩ := bind_eq_ok_iff.1 h
    obtain ⟨b, hb, hr⟩ := bind_eq_ok_iff.1 h
    obtain rfl := Except.ok.inj hr
    exact ⟨a, b, mapError_eq_ok_iff.1 ha, mapError_eq_ok_iff.1 hb, Operator.holds_iff _ a b⟩
  · rintro ⟨a, b, ha, hb, hr⟩
    have hh : c.operator.holds a b = holds := by
      rw [Bool.eq_iff_iff, hr, Operator.holds_iff]
    exact bind_eq_ok_iff.2 ⟨a, mapError_eq_ok_iff.2 ha,
      bind_eq_ok_iff.2 ⟨b, mapError_eq_ok_iff.2 hb, congrArg Except.ok hh⟩⟩

/-- A cut at an operator, when the sides are trimmed, has the truth value of the reading. -/
theorem evaluate_eq_ok_iff_of_firstOperator? (h : firstOperator? text = some (left.length, op))
    (ht : text = left ++ op.symbol.toList ++ right) :
    evaluate vars text = .ok holds ↔ Reads vars text left op right holds := by
  have hl : text.take left.length = left := by simp [ht]
  have hr : text.drop (left.length + op.symbol.length) = right := by
    rw [ht, ← String.length_toList, ← List.length_append, List.drop_left]
  simp only [evaluate, Comparison.split?, h, Option.map_some, Comparison.evaluate_eq_ok_iff, hl, hr,
    Expression.evaluate_trim_eq_ok_iff]
  exact ⟨fun hx => ⟨ht, hx⟩, fun hx => hx.2⟩

theorem evaluate_of_reads (h : Reads vars text left op right holds) :
    firstOperator? text = some (left.length, op) ∧ evaluate vars text = .ok holds := by
  obtain ⟨ht, a, b, ha, hb, -⟩ := id h
  have hf : firstOperator? text = some (left.length, op) :=
    ht ▸ firstOperator?_append (operatorFree_of_evaluate ha) (operatorFree_of_evaluate hb) op
  exact ⟨hf, (evaluate_eq_ok_iff_of_firstOperator? hf ht).2 h⟩

private theorem reads_of_evaluate (h : evaluate vars text = .ok holds) :
    ∃ left op right, Reads vars text left op right holds := by
  cases hf : firstOperator? text with
  | none => simp [evaluate, Comparison.split?, hf] at h
  | some found =>
    obtain ⟨index, op⟩ := found
    obtain ⟨left, right, ht, rfl⟩ := append_of_firstOperator? hf
    exact ⟨left, op, right, (evaluate_eq_ok_iff_of_firstOperator? hf ht).1 h⟩

end Evaluation

/-- A condition has a truth value exactly if it reads as two expressions with an operator between
them that makes it so, and it has at most one such reading. -/
theorem evaluate_iff_only_reading (vars : Variables) (text : List Char) :
    (∀ holds, evaluate vars text = .ok holds ↔
      ∃ left op right, Reads vars text left op right holds) ∧
    ∀ left op right holds left' op' right' holds', Reads vars text left op right holds →
      Reads vars text left' op' right' holds' →
        left = left' ∧ op = op' ∧ right = right' ∧ holds = holds' := by
  refine ⟨fun holds => ⟨reads_of_evaluate, ?_⟩, ?_⟩
  · rintro ⟨left, op, right, h⟩
    exact (evaluate_of_reads h).2
  · intro left op right holds left' op' right' holds' h h'
    obtain ⟨hf, he⟩ := evaluate_of_reads h
    obtain ⟨hf', he'⟩ := evaluate_of_reads h'
    obtain ⟨hl, rfl⟩ : left.length = left'.length ∧ op = op' := by simpa using hf.symm.trans hf'
    have ht := h.1.symm.trans h'.1
    obtain ⟨hx, rfl⟩ := List.append_inj ht (by simp [hl])
    obtain ⟨rfl, -⟩ := List.append_inj hx hl
    exact ⟨rfl, rfl, rfl, Except.ok.inj (he.symm.trans he')⟩

/-- The first character of the operator is an operator too, but that reading has no right side. -/
theorem condition_reads_two_characters :
    Reads ((∅ : Variables).insert "x" 3) " x+1 <=4".toList " x+1 ".toList .atMost ['4'] true ∧
    evaluate ((∅ : Variables).insert "x" 3) " x+1 <=4".toList = .ok true ∧
    ∀ left op right holds,
      Reads ((∅ : Variables).insert "x" 3) " x+1 <=4".toList left op right holds →
        op = .atMost ∧ right = ['4'] := by
  have hr : Reads ((∅ : Variables).insert "x" 3) " x+1 <=4".toList " x+1 ".toList .atMost ['4']
      true :=
    ⟨rfl, 4, 4, by cbv, by cbv, by decide⟩
  obtain ⟨he, hu⟩ := evaluate_iff_only_reading ((∅ : Variables).insert "x" 3) " x+1 <=4".toList
  refine ⟨hr, (he true).2 ⟨_, _, _, hr⟩, fun left op right holds h => ?_⟩
  obtain ⟨-, ho, hx, -⟩ := hu _ _ _ _ _ _ _ _ h hr
  exact ⟨ho, hx⟩

end BlockTrace.Condition
