import BlockTrace.Condition.Evaluation
import BlockTrace.Proofs.Text.Trimming
import Mathlib

/-! Where a condition is cut. Six searches for the operators, of which the one furthest left counts,
find what one pass over the text finds that stops where the first operator starts. -/
namespace BlockTrace.Condition
open Text (isBlank trim trimLeft Trims)

/-- The operator with which a text begins, and what stands behind it. An operator of two characters
goes before its first character alone. -/
def Operator.front? : List Char → Option (Operator × List Char)
  | '=' :: '=' :: rest => some (equal, rest)
  | '!' :: '=' :: rest => some (notEqual, rest)
  | '<' :: '=' :: rest => some (atMost, rest)
  | '>' :: '=' :: rest => some (atLeast, rest)
  | '<' :: rest => some (below, rest)
  | '>' :: rest => some (above, rest)
  | _ => none

/-- Reads a text from left to right up to the first operator: what stands before it, the operator,
and what stands behind it. -/
def scan? : List Char → Option (List Char × Operator × List Char)
  | [] => none
  | c :: rest =>
    match Operator.front? (c :: rest) with
    | some (op, after) => some ([], op, after)
    | none => (scan? rest).map fun (before, op, after) => (c :: before, op, after)

def Comparison.ofParts (before : List Char) (op : Operator) (after : List Char) : Comparison where
  left := trim before
  operator := op
  right := trim after
  leftOffset := (before.takeWhile isBlank).length
  rightOffset := before.length + op.symbol.length + (after.takeWhile isBlank).length

def Operator.Starts (op : Operator) (text : List Char) : Prop :=
  op.symbol.toList <+: text

section Front
variable {text after : List Char} {op : Operator}

namespace Operator

theorem eq_append_of_front? (h : front? text = some (op, after)) :
    text = op.symbol.toList ++ after := by
  unfold front? at h
  split at h <;> cases h <;> rfl

/-- Where an operator starts, one is found that is no shorter. -/
theorem front?_of_starts (h : op.Starts text) :
    ∃ found after, front? text = some (found, after) ∧ op.symbol.length ≤ found.symbol.length := by
  obtain ⟨rest, rfl⟩ := h
  cases op with
  | equal => exact ⟨equal, rest, rfl, Nat.le_refl _⟩
  | notEqual => exact ⟨notEqual, rest, rfl, Nat.le_refl _⟩
  | atMost => exact ⟨atMost, rest, rfl, Nat.le_refl _⟩
  | atLeast => exact ⟨atLeast, rest, rfl, Nat.le_refl _⟩
  | below =>
    rcases rest with _ | ⟨c, rest⟩
    · exact ⟨below, [], rfl, Nat.le_refl _⟩
    · by_cases hc : c = '='
      · subst hc
        exact ⟨atMost, rest, rfl, by decide⟩
      · exact ⟨below, c :: rest, by simp [symbol, front?, hc], Nat.le_refl _⟩
  | above =>
    rcases rest with _ | ⟨c, rest⟩
    · exact ⟨above, [], rfl, Nat.le_refl _⟩
    · by_cases hc : c = '='
      · subst hc
        exact ⟨atLeast, rest, rfl, by decide⟩
      · exact ⟨above, c :: rest, by simp [symbol, front?, hc], Nat.le_refl _⟩

theorem front?_eq_none_iff : front? text = none ↔ ∀ op : Operator, ¬ op.Starts text := by
  constructor
  · intro hn op ho
    obtain ⟨found, after, hf, -⟩ := front?_of_starts ho
    cases hn.symm.trans hf
  · intro hn
    cases hf : front? text with
    | none => rfl
    | some found => exact absurd ⟨found.2, (eq_append_of_front? hf).symm⟩ (hn found.1)

/-- Of the operators that come before it in the order of the search, none starts there. -/
theorem searchOrder_of_front? (h : front? text = some (op, after)) :
    ∃ sooner later, searchOrder = sooner ++ op :: later ∧
      ∀ other ∈ sooner, ¬ other.Starts text := by
  unfold front? at h
  split at h <;> cases h
  · exact ⟨[], _, rfl, by simp⟩
  · exact ⟨[equal], _, rfl, by simp [Starts, symbol]⟩
  · exact ⟨[equal, notEqual], _, rfl, by simp [Starts, symbol]⟩
  · exact ⟨[equal, notEqual, atMost], _, rfl, by simp [Starts, symbol]⟩
  next he =>
    have hn : ¬ ['='] <+: after := fun ⟨rest, hr⟩ => he rest hr.symm
    exact ⟨[equal, notEqual, atMost, atLeast], _, rfl, by simp [Starts, symbol, hn]⟩
  next he =>
    have hn : ¬ ['='] <+: after := fun ⟨rest, hr⟩ => he rest hr.symm
    exact ⟨[equal, notEqual, atMost, atLeast, below], _, rfl, by simp [Starts, symbol, hn]⟩

end Operator

end Front

/-- Of the places the one furthest left; of several at the same index the first. -/
def leftmost? : List (Nat × Operator) → Option (Nat × Operator)
  | [] => none
  | first :: rest => some (rest.foldl earlier first)

/-- The first place of every operator that is found, in the order of the search. -/
def places (text : List Char) : List (Nat × Operator) :=
  Operator.searchOrder.filterMap fun op =>
    (occurrence? op.symbol.toList text).map fun index => (index, op)

theorem firstOperator?_eq_leftmost? (text : List Char) :
    firstOperator? text = leftmost? (places text) := by
  rfl

section Leftmost
variable {found : List (Nat × Operator)} {text : List Char} {op : Operator}

def further (place : Nat × Operator) : Nat × Operator :=
  (place.1 + 1, place.2)

private theorem earlier_further (a b : Nat × Operator) :
    earlier (further a) (further b) = further (earlier a b) := by
  unfold earlier further
  split <;> split <;> grind

private theorem leftmost?_map_further (found : List (Nat × Operator)) :
    leftmost? (found.map further) = (leftmost? found).map further := by
  cases found with
  | nil => rfl
  | cons first rest =>
    simp only [List.map_cons, leftmost?, Option.map_some, List.foldl_map]
    rw [List.foldl_hom further earlier_further]

private theorem foldl_earlier_mem (first : Nat × Operator) (rest : List (Nat × Operator)) :
    rest.foldl earlier first ∈ first :: rest := by
  induction rest generalizing first with
  | nil => simp
  | cons next rest ih =>
    have hm := ih (earlier first next)
    rw [List.foldl_cons]
    rcases List.mem_cons.1 hm with h | h
    · rw [h]
      unfold earlier
      split <;> simp
    · exact List.mem_cons_of_mem _ (List.mem_cons_of_mem _ h)

/-- A place at the front goes before all others, except that the first of several counts. -/
theorem leftmost?_append_zero (sooner later : List (Nat × Operator)) (op : Operator)
    (h : ∀ place ∈ sooner, 0 < place.1) :
    leftmost? (sooner ++ (0, op) :: later) = some (0, op) := by
  have hl : later.foldl earlier (0, op) = (0, op) := by
    induction later with
    | nil => rfl
    | cons place later ih => exact ih
  -- What the fold has found before it comes to `op` is one of the places further right.
  cases sooner with
  | nil => exact congrArg some hl
  | cons first rest =>
    have hr : rest.foldl earlier first ∈ first :: rest := foldl_earlier_mem first rest
    have he : earlier (rest.foldl earlier first) (0, op) = (0, op) := if_pos (h _ hr)
    simp only [List.cons_append, leftmost?, List.foldl_append, List.foldl_cons, he, hl]

end Leftmost

section Scan
variable {text before after : List Char} {op : Operator}

private theorem occurrence?_of_starts (h : op.Starts text) :
    occurrence? op.symbol.toList text = some 0 := by
  cases text with
  | nil => exact absurd (List.prefix_nil.1 h) (by cases op <;> decide)
  | cons c rest => rw [occurrence?, if_pos (List.isPrefixOf_iff_prefix.2 h)]

theorem occurrence?_of_not_starts {c : Char} {rest : List Char} (h : ¬ op.Starts (c :: rest)) :
    occurrence? op.symbol.toList (c :: rest) =
      (occurrence? op.symbol.toList rest).map (· + 1) := by
  rw [occurrence?, if_neg (mt List.isPrefixOf_iff_prefix.1 h)]

/-- With an operator at the front, the searches find it there. -/
theorem firstOperator?_of_front? (h : Operator.front? text = some (op, after)) :
    firstOperator? text = some (0, op) := by
  obtain ⟨sooner, later, hs, hn⟩ := Operator.searchOrder_of_front? h
  have ho : occurrence? op.symbol.toList text = some 0 :=
    occurrence?_of_starts ⟨after, (Operator.eq_append_of_front? h).symm⟩
  rw [firstOperator?_eq_leftmost?, places, hs, List.filterMap_append, List.filterMap_cons, ho]
  apply leftmost?_append_zero
  intro place hp
  obtain ⟨other, hm, he⟩ := List.mem_filterMap.1 hp
  obtain ⟨index, hi, rfl⟩ := Option.map_eq_some_iff.1 he
  cases text with
  | nil => cases h
  | cons c rest =>
    rw [occurrence?_of_not_starts (hn other hm)] at hi
    obtain ⟨n, -, rfl⟩ := Option.map_eq_some_iff.1 hi
    exact Nat.succ_pos n

/-- Without one, they find what they find in the rest, one character further right. -/
theorem firstOperator?_cons {c : Char} {rest : List Char}
    (h : Operator.front? (c :: rest) = none) :
    firstOperator? (c :: rest) = (firstOperator? rest).map further := by
  have hp : places (c :: rest) = (places rest).map further := by
    rw [places, places, List.map_filterMap]
    apply List.filterMap_congr
    intro op _
    rw [occurrence?_of_not_starts (Operator.front?_eq_none_iff.1 h op), Option.map_map,
      Option.map_map]
    rfl
  rw [firstOperator?_eq_leftmost?, hp, leftmost?_map_further, firstOperator?_eq_leftmost?]

/-- The six searches find what one pass finds. -/
theorem firstOperator?_eq_scan? (text : List Char) :
    firstOperator? text = (scan? text).map fun (before, op, _) => (before.length, op) := by
  induction text with
  | nil => rfl
  | cons c rest ih =>
    rw [scan?]
    cases hf : Operator.front? (c :: rest) with
    | none =>
      dsimp only
      rw [firstOperator?_cons hf, ih, Option.map_map, Option.map_map]
      rfl
    | some found => exact firstOperator?_of_front? hf

theorem scan?_of_front? (h : Operator.front? text = some (op, after)) :
    scan? text = some ([], op, after) := by
  cases text with
  | nil => cases h
  | cons c rest => rw [scan?, h]

theorem front?_drop_of_scan? (h : scan? text = some (before, op, after)) :
    before ++ text.drop before.length = text ∧
      Operator.front? (text.drop before.length) = some (op, after) ∧
      ∀ i < before.length, Operator.front? (text.drop i) = none := by
  induction text generalizing before with
  | nil => cases h
  | cons c rest ih =>
    rw [scan?] at h
    cases hf : Operator.front? (c :: rest) with
    | none =>
      rw [hf] at h
      obtain ⟨⟨front, op, back⟩, hs, he⟩ := Option.map_eq_some_iff.1 h
      cases he
      obtain ⟨ht, ho, hn⟩ := ih hs
      refine ⟨congrArg (c :: ·) ht, ho, fun i hi => ?_⟩
      cases i with
      | zero => exact hf
      | succ i => exact hn i (Nat.lt_of_succ_lt_succ hi)
    | some found =>
      rw [hf] at h
      cases h
      exact ⟨rfl, hf, nofun⟩

theorem eq_append_of_scan? (h : scan? text = some (before, op, after)) :
    text = before ++ op.symbol.toList ++ after := by
  obtain ⟨ht, hf, -⟩ := front?_drop_of_scan? h
  rw [Operator.eq_append_of_front? hf, ← List.append_assoc] at ht
  exact ht.symm

theorem not_starts_of_scan? (h : scan? text = some (before, op, after)) {i : Nat}
    (hi : i < before.length) (other : Operator) : ¬ other.Starts (text.drop i) := by
  obtain ⟨-, -, hn⟩ := front?_drop_of_scan? h
  exact Operator.front?_eq_none_iff.1 (hn i hi) other

theorem length_le_of_scan? (h : scan? text = some (before, op, after)) {other : Operator}
    (ho : other.Starts (text.drop before.length)) : other.symbol.length ≤ op.symbol.length := by
  obtain ⟨-, hf, -⟩ := front?_drop_of_scan? h
  obtain ⟨longer, behind, hl, hle⟩ := Operator.front?_of_starts ho
  cases hf.symm.trans hl
  exact hle

private theorem scan?_eq_none_iff :
    scan? text = none ↔ ∀ op : Operator, ¬ op.symbol.toList <:+: text := by
  induction text with
  | nil =>
    refine ⟨fun _ op ho => ?_, fun _ => rfl⟩
    exact absurd (List.infix_nil.1 ho) (by cases op <;> decide)
  | cons c rest ih =>
    simp only [List.infix_cons_iff, not_or, forall_and, ← ih]
    rw [scan?]
    cases hf : Operator.front? (c :: rest) with
    | none =>
      dsimp only
      rw [Option.map_eq_none_iff]
      exact ⟨fun hr => ⟨Operator.front?_eq_none_iff.1 hf, hr⟩, fun hn => hn.2⟩
    | some found =>
      refine ⟨nofun, fun hn => ?_⟩
      exact absurd ⟨found.2, (Operator.eq_append_of_front? hf).symm⟩ (hn.1 found.1)

end Scan

section Split
variable {vars : Expression.Variables} {text before after : List Char} {op : Operator}

/-- A condition is cut where one pass over it stops. -/
theorem Comparison.split?_eq_scan? (text : List Char) :
    split? text = (scan? text).map fun (before, op, after) => ofParts before op after := by
  rw [split?, firstOperator?_eq_scan?]
  cases hs : scan? text with
  | none => rfl
  | some cut =>
    obtain ⟨before, op, after⟩ := cut
    have ht : text = before ++ op.symbol.toList ++ after := eq_append_of_scan? hs
    have hb : text.take before.length = before := by simp [ht]
    have ha : text.drop (before.length + op.symbol.length) = after := by
      rw [ht, ← String.length_toList, ← List.length_append, List.drop_left]
    simp only [Option.map_some, hb, ha, Text.length_sub_trimLeft, ofParts]

theorem no_operator_iff :
    (∀ op : Operator, ¬ op.symbol.toList <:+: text) ↔
      '<' ∉ text ∧ '>' ∉ text ∧ ¬ "==".toList <:+: text ∧ ¬ "!=".toList <:+: text := by
  constructor
  · intro h
    refine ⟨?_, ?_, h .equal, h .notEqual⟩
    · rw [← List.singleton_infix_iff]
      exact h .below
    · rw [← List.singleton_infix_iff]
      exact h .above
  · rintro ⟨hl, hg, he, hn⟩ op ho
    cases op with
    | equal => exact he ho
    | notEqual => exact hn ho
    | atMost | below => exact hl (ho.mem (by decide))
    | atLeast | above => exact hg (ho.mem (by decide))

theorem Comparison.evaluate_eq_error {c : Comparison} {fault : Fault}
    (h : c.evaluate vars = .error fault) :
    (∃ inner, Expression.evaluate vars c.left = .error inner ∧
      fault = .expression (inner.shift c.leftOffset)) ∨
    ∃ value inner, Expression.evaluate vars c.left = .ok value ∧
      Expression.evaluate vars c.right = .error inner ∧
      fault = .expression (inner.shift c.rightOffset) := by
  unfold Comparison.evaluate operand at h
  cases hl : Expression.evaluate vars c.left with
  | error inner =>
    rw [hl] at h
    cases h
    exact .inl ⟨inner, rfl, rfl⟩
  | ok value =>
    cases hr : Expression.evaluate vars c.right with
    | error inner =>
      rw [hl, hr] at h
      cases h
      exact .inr ⟨value, inner, rfl, rfl, rfl⟩
    | ok other =>
      rw [hl, hr] at h
      cases h

private theorem Comparison.evaluate_ne_missingOperator (c : Comparison) :
    c.evaluate vars ≠ .error .missingOperator := by
  intro h
  rcases evaluate_eq_error h with ⟨inner, -, he⟩ | ⟨value, inner, -, -, he⟩
  · cases he
  · cases he

/-- How a comparison lies in a text. -/
structure Comparison.Cuts (c : Comparison) (text before after : List Char) : Prop where
  parts : text = before ++ c.operator.symbol.toList ++ after
  -- No operator starts before the one at which the text is cut.
  first : ∀ i < before.length, ∀ op : Operator, ¬ op.Starts (text.drop i)
  -- No longer operator starts there.
  longest : ∀ op : Operator, op.Starts (text.drop before.length) →
    op.symbol.length ≤ c.operator.symbol.length
  left : c.left = trim before
  right : c.right = trim after
  leftOffset : Trims before c.left c.leftOffset
  rightOffset : ∃ skipped, c.rightOffset = before.length + c.operator.symbol.length + skipped ∧
    Trims after c.right skipped

theorem Comparison.cuts_of_split? {c : Comparison} (h : split? text = some c) :
    ∃ before after, c.Cuts text before after := by
  rw [split?_eq_scan?] at h
  obtain ⟨⟨before, op, after⟩, hs, rfl⟩ := Option.map_eq_some_iff.1 h
  exact ⟨before, after, {
    parts := eq_append_of_scan? hs
    first := fun i hi op => not_starts_of_scan? hs hi op
    longest := fun op ho => length_le_of_scan? hs ho
    left := rfl
    right := rfl
    leftOffset := Text.trims_trim before
    rightOffset := ⟨_, rfl, Text.trims_trim after⟩ }⟩

end Split

/-- A condition is cut where one pass from left to right finds the first operator, and there at the
longer one of two. There is nothing to cut exactly if none of the characters and pairs of characters
stands in the text that begin an operator. Otherwise the text is the part before the operator, the
operator and the part after it; the sides are these parts without the blanks around them, and the
offsets are the places in the text where the sides begin. -/
theorem split_is_one_pass (text : List Char) :
    (Comparison.split? text =
      (scan? text).map fun (before, op, after) => Comparison.ofParts before op after) ∧
    (Comparison.split? text = none ↔
      '<' ∉ text ∧ '>' ∉ text ∧ ¬ "==".toList <:+: text ∧ ¬ "!=".toList <:+: text) ∧
    (∀ vars, evaluate vars text = .error .missingOperator ↔ Comparison.split? text = none) ∧
    ∀ c, Comparison.split? text = some c → ∃ before after, c.Cuts text before after := by
  refine ⟨Comparison.split?_eq_scan? text, ?_, ?_, fun c => Comparison.cuts_of_split?⟩
  · rw [Comparison.split?_eq_scan?, Option.map_eq_none_iff, scan?_eq_none_iff, no_operator_iff]
  · intro vars
    unfold evaluate
    cases Comparison.split? text with
    | none => simp
    | some c => simpa using c.evaluate_ne_missingOperator

/-- The first equals sign begins no operator. Behind it two operators overlap, and the text is cut
at the one that starts first. -/
theorem split_takes_two_characters :
    (∃ before after, Comparison.Cuts ⟨"x =".toList, .atMost, "= 1".toList, 1, 6⟩
      "\u3000x =<== 1".toList before after) ∧
    evaluate ∅ "x = !1".toList = .error .missingOperator := by
  obtain ⟨-, -, -, hc⟩ := split_is_one_pass "\u3000x =<== 1".toList
  obtain ⟨-, hn, hm, -⟩ := split_is_one_pass "x = !1".toList
  exact ⟨hc _ (by decide), (hm ∅).2 (hn.2 (by decide))⟩

end BlockTrace.Condition
