import BlockTrace.Proofs.Attempt
import BlockTrace.Proofs.Expression.Tokens

/-! The routines of the evaluator as equations between values and cursors, without the bounds that
make them end. -/
namespace BlockTrace.Expression
open Text (Cursor Span)

/-- What a routine gives, without the bound on the characters that it leaves. -/
def plain {n : Nat} (x : Except Fault (Reading n)) : Except Fault (Int32 × Cursor) :=
  x.map fun r => (r.value, r.next)

private theorem plain_widen {m n : Nat} (x : Except Fault (Reading m)) (h : m ≤ n) :
    plain (x.map (·.widen h)) = plain x := by
  cases x <;> rfl

/-- Two routines in a row, the second where the first one stops. -/
private theorem plain_bind {m n : Nat} {k : Reading m → Nat} (x : Except Fault (Reading m))
    (f : (r : Reading m) → Except Fault (Reading (k r)))
    (h : ∀ r, k r ≤ n) (g : Int32 × Cursor → Except Fault (Int32 × Cursor))
    (hg : ∀ r, plain (f r) = g (r.value, r.next)) :
    plain (do let r ← x; let s ← f r; return s.widen (h r)) = plain x >>= g := by
  cases x with
  | error fault => rfl
  | ok r =>
    change plain ((f r).map (·.widen (h r))) = g (r.value, r.next)
    rw [plain_widen, hg]

/-- A routine that goes on where another one stopped. -/
theorem gives_bind_plain {n : Nat} {P P' : Int32 × Cursor → Prop} {Q : Fault → Prop}
    {x : Except Fault (Reading n)} {f : Int32 × Cursor → Except Fault (Int32 × Cursor)}
    (hx : Gives P Q (plain x))
    (hf : ∀ r : Reading n, P (r.value, r.next) → Gives P' Q (f (r.value, r.next))) :
    Gives P' Q (plain x >>= f) := by
  cases x with
  | error fault => exact hx
  | ok r => exact hf r hx

variable (vars : Variables)

theorem plain_expression (c : Cursor) :
    plain (expression vars c) = plain (term vars c) >>= fun p => plain (sum vars p.1 p.2) := by
  rw [expression]
  exact plain_bind _ _ (fun r => r.shorter) _ fun _ => rfl

theorem plain_term (c : Cursor) :
    plain (term vars c) = plain (factor vars c) >>= fun p => plain (product vars p.1 p.2) := by
  rw [term]
  exact plain_bind _ _ (fun r => r.shorter) _ fun _ => rfl

theorem plain_sum_none {c : Cursor} (value : Int32)
    (h : c.skipBlanks.accept? AddOp.ofChar? = none) :
    plain (sum vars value c) = .ok (value, c.skipBlanks) := by
  rw [sum]
  split
  · rfl
  next op d hs => simp [h] at hs

theorem plain_sum_some {c d : Cursor} {op : AddOp} (value : Int32)
    (h : c.skipBlanks.accept? AddOp.ofChar? = some (op, d)) :
    plain (sum vars value c) =
      plain (term vars d) >>= fun p => plain (sum vars (op.apply value p.1) p.2) := by
  rw [sum]
  split
  next hn => simp [h] at hn
  next op' d' hs =>
    obtain ⟨rfl, rfl⟩ := Prod.mk.injEq .. ▸ Option.some.injEq .. ▸ h.symm.trans hs
    exact plain_bind _ _ _ _ fun _ => rfl

theorem plain_product_none {c : Cursor} (value : Int32)
    (h : c.skipBlanks.accept? MulOp.ofChar? = none) :
    plain (product vars value c) = .ok (value, c.skipBlanks) := by
  rw [product]
  split
  · rfl
  next op d hs => simp [h] at hs

theorem plain_product_some {c d : Cursor} {op : MulOp} (value : Int32)
    (h : c.skipBlanks.accept? MulOp.ofChar? = some (op, d)) :
    plain (product vars value c) = plain (factor vars d) >>= fun p =>
      match op.apply value p.1 with
      | .error cause => .error ⟨cause, Span.between d.skipBlanks.offset p.2.offset⟩
      | .ok result => plain (product vars result p.2) := by
  rw [product]
  split
  next hn => simp [h] at hn
  next op' d' hs =>
    obtain ⟨rfl, rfl⟩ := Prod.mk.injEq .. ▸ Option.some.injEq .. ▸ h.symm.trans hs
    cases factor vars d with
    | error fault => rfl
    | ok operand =>
      change plain (match op.apply value operand.value with
        | .error cause => _
        | .ok result => _) = match op.apply value operand.value with
        | .error cause => _
        | .ok result => _
      cases op.apply value operand.value with
      | error cause => rfl
      | ok result => exact plain_widen (product vars result operand.next) _

/-- An operation fails on no operand but zero. -/
theorem MulOp.apply_eq_error {op : MulOp} {v w : Int32} {cause : Cause}
    (h : op.apply v w = .error cause) :
    w = 0 ∧ (op = .divide ∧ cause = .divisionByZero ∨ op = .modulo ∧ cause = .moduloByZero) := by
  cases op with
  | times => cases h
  | divide =>
    rw [MulOp.apply] at h
    split at h
    next hw =>
      cases h
      exact ⟨hw, .inl ⟨rfl, rfl⟩⟩
    · cases h
  | modulo =>
    rw [MulOp.apply] at h
    split at h
    next hw =>
      cases h
      exact ⟨hw, .inr ⟨rfl, rfl⟩⟩
    · cases h

/-- The end of a group that was opened at `start`. -/
def closeGroup (start : Nat) (p : Int32 × Cursor) : Except Fault (Int32 × Cursor) :=
  match p.2.skipBlanks.next? with
  | none => .error ⟨.unclosedGroup, Span.between start p.2.skipBlanks.offset⟩
  | some (mark, after) =>
    if mark = ')' then .ok (p.1, after)
    else .error ⟨.unclosedGroup, Span.between start after.offset⟩

theorem closeGroup_eq_ok_iff {start : Nat} {v w : Int32} {d e : Cursor} :
    closeGroup start (w, e) = .ok (v, d) ↔
      w = v ∧ e.skipBlanks.rest = ')' :: d.rest ∧ d.offset = e.skipBlanks.offset + 1 := by
  unfold closeGroup Cursor.next?
  cases e.skipBlanks.rest with
  | nil => simp
  | cons mark rest =>
    cases d with
    | mk more offset =>
      by_cases hm : mark = ')'
      · simp [hm, eq_comm]
      · simp [hm]

theorem closeGroup_of_end {e : Cursor} (start : Nat) (w : Int32) (h : e.skipBlanks.rest = []) :
    closeGroup start (w, e) =
      .error ⟨.unclosedGroup, Span.between start e.skipBlanks.offset⟩ := by
  simp [closeGroup, Cursor.next?, h]

theorem closeGroup_of_wrong {e : Cursor} {wrong : Char} {more : List Char} (start : Nat)
    (w : Int32) (h : e.skipBlanks.rest = wrong :: more) (hw : wrong ≠ ')') :
    closeGroup start (w, e) =
      .error ⟨.unclosedGroup, Span.between start (e.skipBlanks.offset + 1)⟩ := by
  simp [closeGroup, Cursor.next?, h, hw]

variable {c : Cursor} {first : Char} {rest : List Char}

theorem plain_factor_end (h : c.skipBlanks.rest = []) :
    plain (factor vars c) = .error ⟨.unexpectedEnd, ⟨c.skipBlanks.offset, 0⟩⟩ := by
  rw [factor]
  split
  · rfl
  next first rest hr => simp [h] at hr

theorem plain_factor_group (h : c.skipBlanks.rest = '(' :: rest) :
    plain (factor vars c) =
      plain (expression vars ⟨rest, c.skipBlanks.offset + 1⟩) >>=
        closeGroup c.skipBlanks.offset := by
  rw [factor]
  split
  next hn => simp [h] at hn
  next first' rest' hr =>
    obtain ⟨rfl, rfl⟩ := List.cons.injEq .. ▸ h.symm.trans hr
    rw [if_pos rfl]
    cases expression vars ⟨rest, c.skipBlanks.offset + 1⟩ with
    | error fault => rfl
    | ok inner =>
      change _ = closeGroup _ (inner.value, inner.next)
      rw [ok_bind]
      dsimp only
      split
      next hn => simp only [closeGroup, hn]; rfl
      next mark after hn =>
        simp only [closeGroup, hn]
        split <;> rfl

theorem plain_factor_digit (h : c.skipBlanks.rest = first :: rest) (hd : first.isDigit) :
    plain (factor vars c) = .ok (literalValue (c.skipBlanks.takeWhile Char.isDigit).1,
      (c.skipBlanks.takeWhile Char.isDigit).2) := by
  rw [factor]
  split
  next hn => simp [h] at hn
  next first' rest' hr =>
    obtain ⟨rfl, rfl⟩ := List.cons.injEq .. ▸ h.symm.trans hr
    rw [if_neg (by rintro rfl; simp at hd), dif_pos hd]
    rfl

theorem plain_factor_name (h : c.skipBlanks.rest = first :: rest) (hs : isNameStart first) :
    plain (factor vars c) =
      match vars[String.ofList (c.skipBlanks.takeWhile isNameRest).1]? with
      | some value => .ok (value, (c.skipBlanks.takeWhile isNameRest).2)
      | none => .error ⟨.unknownVariable (String.ofList (c.skipBlanks.takeWhile isNameRest).1),
          Span.between c.skipBlanks.offset (c.skipBlanks.takeWhile isNameRest).2.offset⟩ := by
  rw [factor]
  split
  next hn => simp [h] at hn
  next first' rest' hr =>
    obtain ⟨rfl, rfl⟩ := List.cons.injEq .. ▸ h.symm.trans hr
    rw [if_neg (by rintro rfl; revert hs; decide), dif_neg (by simp [isDigit_of_isNameStart hs]),
      dif_pos hs, plain_widen]
    unfold lookup
    dsimp only
    cases vars[String.ofList (c.skipBlanks.takeWhile isNameRest).1]? <;> rfl

theorem plain_factor_mark (h : c.skipBlanks.rest = first :: rest) (hp : first ≠ '(')
    (hm : isMark first) :
    plain (factor vars c) = .error ⟨.unexpectedCharacter first c.skipBlanks.offset,
      Span.single c.skipBlanks.offset⟩ := by
  simp only [isMark, Bool.and_eq_true, Bool.not_eq_true'] at hm
  rw [factor]
  split
  next hn => simp [h] at hn
  next first' rest' hr =>
    obtain ⟨rfl, rfl⟩ := List.cons.injEq .. ▸ h.symm.trans hr
    rw [if_neg hp, dif_neg (by simp [hm.1.2]), dif_neg (by simp [hm.2])]
    rfl

theorem evaluate_eq_plain (text : List Char) :
    evaluate vars text = plain (expression vars (Cursor.start text)) >>= fun p =>
      match p.2.skipBlanks.rest with
      | [] => .ok p.1
      | _ :: _ => .error ⟨.trailingInput p.2.skipBlanks.offset,
          Span.single p.2.skipBlanks.offset⟩ := by
  rw [evaluate]
  cases expression vars (Cursor.start text) <;> rfl

/-- A value that is read comes from a reading. -/
theorem reading_of_plain {n : Nat} {x : Except Fault (Reading n)} {value : Int32} {d : Cursor}
    (h : plain x = .ok (value, d)) : ∃ r : Reading n, r.value = value ∧ r.next = d := by
  cases x with
  | error fault => cases h
  | ok r =>
    obtain ⟨rfl, rfl⟩ := Prod.mk.injEq .. ▸ Except.ok.injEq .. ▸ h
    exact ⟨r, rfl, rfl⟩

end BlockTrace.Expression
