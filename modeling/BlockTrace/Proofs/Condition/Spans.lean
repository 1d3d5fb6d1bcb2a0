import BlockTrace.Proofs.Condition.Cut
import BlockTrace.Proofs.Expression.Spans
import Mathlib

/-! What stands under the span of a condition's fault. The fault is that of one of the two sides,
and its span is moved to where that side begins, so that it covers the same characters in the whole
condition. -/
namespace BlockTrace.Condition
open Expression (Variables)

/-- How a fault in `text` stands to the fault `inner` of a side that begins at `offset` there. -/
structure PointsInto (text side : List Char) (offset : Nat) (inner fault : Expression.Fault) :
    Prop where
  -- The side stands at its place.
  place : (text.drop offset).take side.length = side
  cause : fault.cause = inner.cause
  length : fault.span.length = inner.span.length
  characters : (text.drop fault.span.start).take fault.span.length =
    (side.drop inner.span.start).take inner.span.length
  -- The span does not begin before the side.
  start : offset ≤ fault.span.start
  -- The span does not go on behind the side.
  stop : fault.span.stop ≤ offset + side.length
  -- The end that comes too soon is the end of the side.
  ending : fault.cause = .unexpectedEnd → fault.span = ⟨offset + side.length, 0⟩

section Points
variable {vars : Variables} {text side : List Char} {inner fault : Expression.Fault}

/-- An end that comes too soon is marked at the end of the text. -/
theorem span_of_unexpectedEnd (h : inner.Marks vars side) (hc : inner.cause = .unexpectedEnd) :
    inner.span = ⟨side.length, 0⟩ := by
  obtain ⟨hi, hm⟩ := h
  rw [hc] at hm
  obtain ⟨hu, ha⟩ := hm
  have hl : side.length ≤ inner.span.stop := List.drop_eq_nil_iff.1 ha
  have hz := congrArg List.length hu
  rw [Text.Span.stop] at hi hl
  simp only [List.length_take, List.length_drop, List.length_nil] at hz
  have hlength : inner.span.length = 0 := by omega
  have hstart : inner.span.start = side.length := by omega
  rw [← hstart, ← hlength]

/-- The fault of a side, moved to where the side stands, covers the same characters. -/
theorem pointsInto_shift {x y : List Char} (ht : text = x ++ side ++ y)
    (h : inner.Marks vars side) :
    PointsInto text side x.length inner (inner.shift x.length) where
  place := by simp [ht]
  cause := rfl
  length := rfl
  characters := by
    have hi := h.inside
    rw [Text.Span.stop] at hi
    simp only [Expression.Fault.shift, Text.Span.shift]
    rw [ht, List.append_assoc, Nat.add_comm, List.drop_length_add_append,
      List.drop_append_of_le_length (by omega), List.take_append_of_le_length]
    simp only [List.length_drop]
    omega
  start := Nat.le_add_left _ _
  stop := by
    have hi := h.inside
    simp only [Expression.Fault.shift, Text.Span.shift, Text.Span.stop] at hi ⊢
    omega
  ending := by
    intro hc
    simp [Expression.Fault.shift, Text.Span.shift, span_of_unexpectedEnd h hc, Nat.add_comm]

theorem marks_of_evaluate (h : Expression.evaluate vars side = .error inner) :
    inner.Marks vars side := by
  have hm := Expression.evaluate_marks vars side
  rw [h] at hm
  exact hm

end Points

section Sides
variable {vars : Variables} {c : Comparison} {text before after : List Char}
  {inner : Expression.Fault}

private theorem Comparison.Cuts.pointsInto_left (hc : c.Cuts text before after)
    (h : Expression.evaluate vars c.left = .error inner) :
    PointsInto text c.left c.leftOffset inner (inner.shift c.leftOffset) ∧
      (inner.shift c.leftOffset).span.stop ≤ before.length := by
  obtain ⟨front, back, hb, hl, -⟩ := hc.leftOffset.pieces
  have ht : text = front ++ c.left ++ (back ++ (c.operator.symbol.toList ++ after)) := by
    rw [hc.parts, hb]
    simp only [List.append_assoc]
  have hp := pointsInto_shift ht (marks_of_evaluate h)
  rw [hl] at hp
  refine ⟨hp, Nat.le_trans hp.stop ?_⟩
  rw [hb, ← hl]
  simp only [List.length_append]
  omega

private theorem Comparison.Cuts.pointsInto_right (hc : c.Cuts text before after)
    (h : Expression.evaluate vars c.right = .error inner) :
    PointsInto text c.right c.rightOffset inner (inner.shift c.rightOffset) ∧
      before.length + c.operator.symbol.length ≤ (inner.shift c.rightOffset).span.start := by
  obtain ⟨skipped, ho, hs⟩ := hc.rightOffset
  obtain ⟨front, back, ha, hl, -⟩ := hs.pieces
  have ht : text = (before ++ c.operator.symbol.toList ++ front) ++ c.right ++ back := by
    rw [hc.parts, ha]
    simp only [List.append_assoc]
  have hp := pointsInto_shift ht (marks_of_evaluate h)
  have hx : (before ++ c.operator.symbol.toList ++ front).length = c.rightOffset := by
    simp only [List.length_append, String.length_toList, hl, ho]
  rw [hx] at hp
  refine ⟨hp, Nat.le_trans ?_ hp.start⟩
  rw [ho]
  exact Nat.le_add_right _ _

end Sides

/-- The fault of an expression in a condition is the fault of its left side or, if that has a value,
of its right side. Its span covers, in the whole text, the characters that it covers in that side,
and none of the operator or of the other side. -/
theorem fault_points_into_side {vars : Variables} {text : List Char} {fault : Expression.Fault}
    (h : evaluate vars text = .error (.expression fault)) :
    ∃ c before after, Comparison.split? text = some c ∧ c.Cuts text before after ∧
      ((∃ inner, Expression.evaluate vars c.left = .error inner ∧
          PointsInto text c.left c.leftOffset inner fault ∧ fault.span.stop ≤ before.length) ∨
        ∃ value inner, Expression.evaluate vars c.left = .ok value ∧
          Expression.evaluate vars c.right = .error inner ∧
          PointsInto text c.right c.rightOffset inner fault ∧
          before.length + c.operator.symbol.length ≤ fault.span.start) := by
  unfold evaluate at h
  cases hs : Comparison.split? text with
  | none =>
    rw [hs] at h
    cases h
  | some c =>
    rw [hs] at h
    obtain ⟨before, after, hc⟩ := Comparison.cuts_of_split? hs
    refine ⟨c, before, after, rfl, hc, ?_⟩
    rcases Comparison.evaluate_eq_error h with ⟨inner, hl, he⟩ | ⟨value, inner, hl, hr, he⟩
    · cases he
      exact .inl ⟨inner, hl, hc.pointsInto_left hl⟩
    · cases he
      exact .inr ⟨value, inner, hl, hr, hc.pointsInto_right hr⟩

/-- The left side has a value, and the right side has none. The message counts from where the right
side begins, the span from where the condition begins. -/
theorem fault_points_behind_operator :
    evaluate ((∅ : Variables).insert "n" 3) "\u3000n+1 <=\u00a0(n + é\u2003".toList =
      .error (.expression ⟨.unexpectedCharacter 'é' 5, ⟨13, 1⟩⟩) ∧
    ∃ inner, Expression.evaluate ((∅ : Variables).insert "n" 3) "(n + é".toList = .error inner ∧
      PointsInto "\u3000n+1 <=\u00a0(n + é\u2003".toList "(n + é".toList 8 inner
        ⟨.unexpectedCharacter 'é' 5, ⟨13, 1⟩⟩ := by
  obtain ⟨h, hl⟩ :
      evaluate ((∅ : Variables).insert "n" 3) "\u3000n+1 <=\u00a0(n + é\u2003".toList =
        .error (.expression ⟨.unexpectedCharacter 'é' 5, ⟨13, 1⟩⟩) ∧
      Expression.evaluate ((∅ : Variables).insert "n" 3) "n+1".toList = .ok 4 :=
    ⟨by cbv, by cbv⟩
  have hs : Comparison.split? "\u3000n+1 <=\u00a0(n + é\u2003".toList =
      some ⟨"n+1".toList, .atMost, "(n + é".toList, 1, 8⟩ := by decide
  obtain ⟨c, before, after, hc, -, hp⟩ := fault_points_into_side h
  cases hs.symm.trans hc
  rcases hp with ⟨inner, he, -⟩ | ⟨value, inner, -, hr, hp, -⟩
  · cases hl.symm.trans he
  · exact ⟨h, inner, hr, hp⟩

end BlockTrace.Condition
