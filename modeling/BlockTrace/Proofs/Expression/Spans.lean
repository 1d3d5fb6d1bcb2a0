import BlockTrace.Proofs.Expression.Places
import Mathlib

/-! What stands under the span of a fault. Every routine goes ahead in the text or stops at what is
wrong there, and the characters from where it began to where it stopped are the ones that the fault
is about. -/
namespace BlockTrace.Expression
open Text (Cursor Span isBlank trim trimRight)

/-- The operand after `mark` is zero: `under` is the operand, and `before` all that is in front. -/
structure ZeroOperand (vars : Variables) (mark : Char) (before under : List Char) : Prop where
  mark : (trimRight before).getLast? = some mark
  trimmed : trim under = under
  zero : evaluate vars under = .ok 0

/-- What a cause says of the characters `under`, which stand between `before` and `after`. -/
def Cause.Concerns (vars : Variables) (before under after : List Char) : Cause → Prop
  | unexpectedEnd => under = [] ∧ after = []
  | unexpectedCharacter found position => under = [found] ∧ position = before.length
  | trailingInput position => under.length = 1 ∧ position = before.length
  | unclosedGroup =>
    ∃ inner value, evaluate vars inner = .ok value ∧
      ((∃ wrong, wrong ≠ ')' ∧ under = '(' :: (inner ++ [wrong])) ∨
        under = '(' :: inner ∧ after = [])
  | unknownVariable name => under = name.toList ∧ ∀ c ∈ after.head?, isNameRest c = false
  | divisionByZero => ZeroOperand vars '/' before under
  | moduloByZero => ZeroOperand vars '%' before under

/-- The span of a fault lies in `text`, over the characters that the cause is about. -/
structure Fault.Marks (vars : Variables) (text : List Char) (fault : Fault) : Prop where
  inside : fault.span.stop ≤ text.length
  concerns : fault.cause.Concerns vars (text.take fault.span.start)
    ((text.drop fault.span.start).take fault.span.length) (text.drop fault.span.stop)

/-- From `c` on, if that is a place in `text`, a routine goes ahead or it marks what is wrong. -/
def Proceeds (vars : Variables) (text : List Char) (c : Cursor)
    (x : Except Fault (Int32 × Cursor)) : Prop :=
  (∃ read, (Cursor.start text).Passes read c) →
    Gives (fun p => ∃ u, c.Passes u p.2) (Fault.Marks vars text) x

/-- The same of a factor, which stands without blanks at its ends. -/
def Delimits (vars : Variables) (text : List Char) (c : Cursor)
    (x : Except Fault (Int32 × Cursor)) : Prop :=
  (∃ read, (Cursor.start text).Passes read c) →
    Gives (fun p => ∃ u, c.skipBlanks.Passes u p.2 ∧ trim u = u) (Fault.Marks vars text) x

section Marks
variable {vars : Variables} {text read u : List Char} {c d : Cursor} {v : Int32}
  {x : Except Fault (Int32 × Cursor)}

theorem marks_of_passes {cause : Cause} (hr : (Cursor.start text).Passes read c)
    (hu : c.Passes u d) (h : cause.Concerns vars read u d.rest) :
    Fault.Marks vars text ⟨cause, ⟨c.offset, u.length⟩⟩ := by
  have ht : text = read ++ (u ++ d.rest) := by rw [← hu.rest, ← hr.rest]; rfl
  have ho : c.offset = read.length := by rw [hr.offset]; exact Nat.zero_add _
  constructor
  · simp [Span.stop, ho, ht]
  · simpa [Span.stop, ho, ht] using h

theorem Proceeds.of_passes (hu : c.Passes u d) : Proceeds vars text c (.ok (v, d)) :=
  fun _ => ⟨u, hu⟩

theorem Proceeds.after (hu : c.Passes u d) (h : Proceeds vars text d x) :
    Proceeds vars text c x := by
  rintro ⟨read, hr⟩
  refine (h ⟨_, hr.trans hu⟩).imp ?_
  rintro p ⟨w, hw⟩
  exact ⟨u ++ w, hu.trans hw⟩

theorem Proceeds.bind {f : Int32 × Cursor → Except Fault (Int32 × Cursor)}
    (h : Proceeds vars text c x) (hf : ∀ p, x = .ok p → Proceeds vars text p.2 (f p)) :
    Proceeds vars text c (x >>= f) := by
  intro hc
  refine (h hc).bind_of_eq_ok ?_
  rintro p hp ⟨u, hu⟩
  exact (hf p hp).after hu hc

private theorem Delimits.proceeds (h : Delimits vars text c x) : Proceeds vars text c x := by
  intro hc
  refine (h hc).imp ?_
  rintro p ⟨u, hu, _⟩
  exact ⟨_, (Cursor.Passes.skipBlanks c).trans hu⟩

end Marks

section Operands
variable {vars : Variables} {text read u : List Char} {c d e : Cursor} {v w : Int32}

/-- The cause of an operation that fails is about its operand, which is zero. -/
theorem concerns_of_apply (vars : Variables) {op : MulOp} {cause : Cause}
    (h : op.apply v w = .error cause) :
    w = 0 ∧ ∀ before under after,
      ZeroOperand vars op.symbol before under → cause.Concerns vars before under after := by
  obtain ⟨hw, ⟨rfl, rfl⟩ | ⟨rfl, rfl⟩⟩ := MulOp.apply_eq_error h
  · exact ⟨hw, fun _ _ _ hz => hz⟩
  · exact ⟨hw, fun _ _ _ hz => hz⟩

private theorem marks_of_apply {op : MulOp} {cause : Cause} (hr : (Cursor.start text).Passes read c)
    (ha : c.skipBlanks.accept? MulOp.ofChar? = some (op, d)) (hu : d.skipBlanks.Passes u e)
    (ht : trim u = u) (hs : Spells vars .factor d w e) (h : op.apply v w = .error cause) :
    Fault.Marks vars text ⟨cause, Span.between d.skipBlanks.offset e.offset⟩ := by
  obtain ⟨rfl, hc⟩ := concerns_of_apply vars h
  obtain ⟨m, hm, hd⟩ := passes_of_accept? ha
  have hb : isBlank m = false := isBlank_of_isMark (MulOp.isMark_of_ofChar? m op hm)
  rw [hu.span]
  refine marks_of_passes ((hr.trans hd).trans (.skipBlanks d)) hu (hc _ _ _ ⟨?_, ht, ?_⟩)
  · have hblanks : ∀ b ∈ d.rest.takeWhile isBlank, isBlank b := fun b => List.mem_takeWhile_imp
    rw [← List.append_assoc, List.append_assoc, List.singleton_append,
      Text.trimRight_append_blanks _ hb hblanks, MulOp.symbol_of_ofChar? hm]
    simp
  · exact evaluate_of_passes (spells_from_skipBlanks.2 hs.term.expression) hu

private theorem proceeds_product {op : MulOp}
    (ha : c.skipBlanks.accept? MulOp.ofChar? = some (op, d))
    (h : Delimits vars text d (plain (factor vars d)))
    (hf : ∀ p, plain (factor vars d) = .ok p →
      ∀ x, Proceeds vars text p.2 (plain (product vars x p.2))) :
    Proceeds vars text c (plain (product vars v c)) := by
  rintro ⟨read, hr⟩
  obtain ⟨m, hm, hd⟩ := passes_of_accept? ha
  rw [plain_product_some vars v ha]
  refine (h ⟨_, hr.trans hd⟩).bind_of_eq_ok ?_
  rintro p hp ⟨u, hu, ht⟩
  split
  next cause hcause =>
    exact marks_of_apply hr ha hu ht ((spells_of_plain vars).2.2.2.2 _ _ _ hp) hcause
  next result hresult =>
    exact (hf p hp result).after ((hd.trans (.skipBlanks d)).trans hu) ⟨read, hr⟩

private theorem trim_group (inner : List Char) :
    trim ('(' :: (inner ++ [')'])) = '(' :: (inner ++ [')']) := by
  apply Text.trim_eq_self
  · rintro b ⟨⟩
    decide
  · rw [← List.cons_append, List.getLast?_append]
    rintro b ⟨⟩
    decide

private theorem gives_closeGroup {inner : List Char} (hr : (Cursor.start text).Passes read c)
    (hi : c.Passes ('(' :: inner) d.skipBlanks) (hv : evaluate vars inner = .ok v) :
    Gives (fun p => ∃ u, c.Passes u p.2 ∧ trim u = u) (Fault.Marks vars text)
      (closeGroup c.offset (v, d)) := by
  cases hn : d.skipBlanks.rest with
  | nil =>
    rw [closeGroup_of_end _ v hn, hi.span]
    exact marks_of_passes hr hi ⟨inner, v, hv, .inr ⟨rfl, hn⟩⟩
  | cons mark more =>
    have hu : c.Passes ('(' :: (inner ++ [mark])) ⟨more, d.skipBlanks.offset + 1⟩ :=
      hi.trans ⟨hn, rfl⟩
    by_cases hm : mark = ')'
    · subst hm
      have hx : closeGroup c.offset (v, d) = .ok (v, ⟨more, d.skipBlanks.offset + 1⟩) :=
        closeGroup_eq_ok_iff.2 ⟨rfl, hn, rfl⟩
      rw [hx]
      exact ⟨_, hu, trim_group inner⟩
    · have hs : Span.between c.offset (d.skipBlanks.offset + 1) = ⟨c.offset, _⟩ := hu.span
      rw [closeGroup_of_wrong _ v hn hm, hs]
      exact marks_of_passes hr hu ⟨inner, v, hv, .inl ⟨mark, hm, rfl⟩⟩

private theorem delimits_group {rest : List Char} (hc : c.skipBlanks.rest = '(' :: rest)
    (h : Proceeds vars text ⟨rest, c.skipBlanks.offset + 1⟩
      (plain (expression vars ⟨rest, c.skipBlanks.offset + 1⟩))) :
    Delimits vars text c (plain (factor vars c)) := by
  rintro ⟨read, hr⟩
  have hplace := hr.trans (.skipBlanks c)
  have hopen : c.skipBlanks.Passes ['('] ⟨rest, c.skipBlanks.offset + 1⟩ := ⟨hc, rfl⟩
  rw [plain_factor_group vars hc]
  refine (h ⟨_, hplace.trans hopen⟩).bind_of_eq_ok ?_
  rintro p hp ⟨u, hu⟩
  have hinner := hu.trans (.skipBlanks p.2)
  have hs := (spells_of_plain vars).1 _ p.1 p.2 hp
  exact gives_closeGroup hplace (hopen.trans hinner)
    (evaluate_of_passes (spells_to_skipBlanks.2 hs) hinner)

private theorem delimits_run {p : Char → Bool} (hp : ∀ {b}, isBlank b → p b = false) (v : Int32) :
    Delimits vars text c (.ok (v, (c.skipBlanks.takeWhile p).2)) := by
  intro _
  refine ⟨_, .takeWhile p c.skipBlanks, Text.trim_eq_self ?_ ?_⟩
  · exact fun b hb => isBlank_of_mem_run hp (List.mem_of_mem_head? hb)
  · exact fun b hb => isBlank_of_mem_run hp (List.mem_of_getLast? hb)

private theorem delimits_name {first : Char} {rest : List Char}
    (hc : c.skipBlanks.rest = first :: rest) (hs : isNameStart first) :
    Delimits vars text c (plain (factor vars c)) := by
  rw [plain_factor_name vars hc hs]
  split
  · exact delimits_run isNameRest_of_isBlank _
  · rintro ⟨read, hr⟩
    have hu := Cursor.Passes.takeWhile isNameRest c.skipBlanks
    rw [hu.span]
    refine marks_of_passes (hr.trans (.skipBlanks c)) hu ⟨(String.toList_ofList).symm, ?_⟩
    intro b hb
    have hd := List.head?_dropWhile_not isNameRest c.skipBlanks.rest
    rw [Option.mem_def] at hb
    change (c.skipBlanks.rest.dropWhile isNameRest).head? = _ at hb
    rw [hb] at hd
    exact hd

private theorem delimits_end (hc : c.skipBlanks.rest = []) :
    Delimits vars text c (plain (factor vars c)) := by
  rintro ⟨read, hr⟩
  rw [plain_factor_end vars hc]
  exact marks_of_passes (hr.trans (.skipBlanks c)) (.refl _) ⟨rfl, hc⟩

private theorem delimits_mark {first : Char} {rest : List Char}
    (hc : c.skipBlanks.rest = first :: rest) (hp : first ≠ '(') (hm : isMark first) :
    Delimits vars text c (plain (factor vars c)) := by
  rintro ⟨read, hr⟩
  have hplace := hr.trans (.skipBlanks c)
  have hu : c.skipBlanks.Passes [first] ⟨rest, c.skipBlanks.offset + 1⟩ := ⟨hc, rfl⟩
  rw [plain_factor_mark vars hc hp hm]
  exact marks_of_passes hplace hu ⟨rfl, hplace.offset.trans (Nat.zero_add _)⟩

end Operands

/-- Wherever a routine stands in a text, it goes ahead or marks what is wrong. -/
theorem proceeds_of_plain (vars : Variables) (text : List Char) :
    (∀ c, Proceeds vars text c (plain (expression vars c))) ∧
    (∀ w c, Proceeds vars text c (plain (sum vars w c))) ∧
    (∀ c, Proceeds vars text c (plain (term vars c))) ∧
    (∀ w c, Proceeds vars text c (plain (product vars w c))) ∧
    (∀ c, Delimits vars text c (plain (factor vars c))) := by
  refine expression.mutual_induct _ _ _ _ _ ?expression ?sumStop ?sumGo ?term ?productStop
    ?productGo ?factorEnd ?factorGroup ?factorDigit ?factorName ?factorMark
  case expression =>
    intro c ihTerm ihSum
    rw [plain_expression]
    refine ihTerm.bind fun p hp => ?_
    obtain ⟨r, hv, hn⟩ := reading_of_plain hp
    exact hv ▸ hn ▸ ihSum r
  case sumStop =>
    intro w c ha
    rw [plain_sum_none vars w ha]
    exact .of_passes (.skipBlanks c)
  case sumGo =>
    intro w c op d ha _ ihTerm ihSum
    rw [plain_sum_some vars w ha]
    obtain ⟨m, _, hd⟩ := passes_of_accept? ha
    refine (ihTerm.bind fun p hp => ?_).after hd
    obtain ⟨r, hv, hn⟩ := reading_of_plain hp
    exact hv ▸ hn ▸ ihSum r
  case term =>
    intro c ihFactor ihProduct
    rw [plain_term]
    refine ihFactor.proceeds.bind fun p hp => ?_
    obtain ⟨r, hv, hn⟩ := reading_of_plain hp
    exact hv ▸ hn ▸ ihProduct r
  case productStop =>
    intro w c ha
    rw [plain_product_none vars w ha]
    exact .of_passes (.skipBlanks c)
  case productGo =>
    intro w c op d ha _ ihFactor ihProduct
    refine proceeds_product ha ihFactor fun p hp x => ?_
    obtain ⟨r, hv, hn⟩ := reading_of_plain hp
    exact hn ▸ ihProduct r x
  case factorEnd =>
    intro c _ _ hr
    exact delimits_end hr
  case factorGroup =>
    intro c _ _ rest hr _ ihExpression
    exact delimits_group hr ihExpression
  case factorDigit =>
    intro c _ _ first rest hr _ hd
    rw [plain_factor_digit vars hr hd]
    exact delimits_run isDigit_of_isBlank _
  case factorName =>
    intro c _ _ first rest hr _ _ hs
    exact delimits_name hr hs
  case factorMark =>
    intro c _ _ first rest hr hp hd hs
    exact delimits_mark hr hp (by simp [isMark, isBlank_head_skipBlanks hr, hd, hs])

theorem evaluate_marks (vars : Variables) (text : List Char) :
    Gives (fun _ => True) (Fault.Marks vars text) (evaluate vars text) := by
  rw [evaluate_eq_plain]
  refine ((proceeds_of_plain vars text).1 (Cursor.start text) ⟨[], .refl _⟩).bind ?_
  rintro p ⟨u, hu⟩
  have hplace := hu.trans (.skipBlanks p.2)
  split
  · trivial
  next first rest hr =>
    have hf : p.2.skipBlanks.Passes [first] ⟨rest, p.2.skipBlanks.offset + 1⟩ := ⟨hr, rfl⟩
    exact marks_of_passes hplace hf ⟨rfl, hplace.offset.trans (Nat.zero_add _)⟩

/-- The span of every fault lies in the text, over exactly the characters that are wrong. -/
theorem fault_marks_what_is_wrong {vars : Variables} {text : List Char} {fault : Fault}
    (h : evaluate vars text = .error fault) : fault.Marks vars text := by
  have hm := evaluate_marks vars text
  rw [h] at hm
  exact hm

/-- The operand of the remainder is marked with its parentheses, without the blanks around it. -/
theorem zero_operand_is_marked :
    evaluate ((∅ : Variables).insert "x" 3) "1 + 7 %  ( x - 3 ) * 2".toList =
      .error ⟨.moduloByZero, ⟨9, 9⟩⟩ ∧
    ("1 + 7 %  ( x - 3 ) * 2".toList.drop 9).take 9 = "( x - 3 )".toList ∧
    ZeroOperand ((∅ : Variables).insert "x" 3) '%' "1 + 7 %  ".toList "( x - 3 )".toList := by
  have h : evaluate ((∅ : Variables).insert "x" 3) "1 + 7 %  ( x - 3 ) * 2".toList =
      .error ⟨.moduloByZero, ⟨9, 9⟩⟩ := by
    cbv
  exact ⟨h, by decide, (fault_marks_what_is_wrong h).concerns⟩

end BlockTrace.Expression
