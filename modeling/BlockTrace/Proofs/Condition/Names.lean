import BlockTrace.Proofs.Condition.Cut
import BlockTrace.Proofs.Expression.LookAhead
import BlockTrace.Proofs.Expression.Spacing
import Mathlib

/-! Expressions and conditions read the variables that they name and no others. A variable without
the shape of a name, whatever its value, is read by none. -/
namespace BlockTrace.Expression
open Text (Cursor)

def Token.name? : Token → Option String
  | number _ => none
  | name letters => some (String.ofList letters)
  | mark _ => none

def names (text : List Char) : List String :=
  (tokens text).filterMap Token.name?

/-- Whether a variable of this name can be read: a letter of ASCII or an underscore comes first, and
letters, digits and underscores follow. -/
def isName (name : String) : Bool :=
  match name.toList with
  | [] => false
  | first :: rest => isNameStart first && rest.all isNameRest

/-- Each of the names has the same value in both, or in neither one. -/
def Agree (names : List String) (vars vars' : Variables) : Prop :=
  ∀ name ∈ names, vars[name]? = vars'[name]?

section Names
variable {vars vars' : Variables} {c : Cursor} {first : Char} {rest text : List Char}

private theorem names_skipBlanks (c : Cursor) : names c.skipBlanks.rest = names c.rest := by
  rw [names, tokens_skipBlanks, names]

theorem names_mark (h : isMark first) (rest : List Char) : names (first :: rest) = names rest := by
  rw [names, tokens_mark h]
  rfl

private theorem names_at_digit (hr : c.rest = first :: rest) (hd : first.isDigit) :
    names c.rest = names (c.takeWhile Char.isDigit).2.rest := by
  rw [names, tokens_at_digit hr hd]
  rfl

private theorem names_at_nameStart (hr : c.rest = first :: rest) (hs : isNameStart first) :
    names c.rest = String.ofList (c.takeWhile isNameRest).1 ::
      names (c.takeWhile isNameRest).2.rest := by
  rw [names, tokens_at_nameStart hr hs]
  rfl

private theorem names_marks {marks : List Char} (h : ∀ c ∈ marks, isMark c) (rest : List Char) :
    names (marks ++ rest) = names rest := by
  induction marks with
  | nil => rfl
  | cons c marks ih =>
    rw [List.forall_mem_cons] at h
    rw [List.cons_append, names_mark h.1, ih h.2]

/-- No name goes on over a character that cannot stand in one. -/
theorem names_append_cons {x : List Char} (hm : isMark first) (hn : isNameRest first = false) :
    names (x ++ first :: rest) = names x ++ names rest := by
  have hd : first.isDigit = false := by
    simp only [isMark, Bool.and_eq_true, Bool.not_eq_true'] at hm
    exact hm.1.2
  rw [names, tokens_append_cons hd hn, List.filterMap_append]
  exact congrArg (names x ++ ·) (names_mark hm rest)

theorem names_trim (text : List Char) : names (Text.trim text) = names text := by
  rw [names, tokens_trim, names]

/-- Whatever stands in a text as a name has the shape of one. -/
theorem isName_of_mem_names {name : String} (h : name ∈ names text) : isName name := by
  unfold names at h
  fun_induction tokens text with
  | case1 => cases h
  | case2 _ _ _ ih => exact ih h
  | case3 _ _ _ _ ih => exact ih h
  | case4 first rest _ _ hs ih =>
    change name ∈ String.ofList (first :: rest.takeWhile isNameRest) :: _ at h
    rcases List.mem_cons.1 h with rfl | h
    · have ha : (rest.takeWhile isNameRest).all isNameRest := List.all_takeWhile
      simp [isName, hs, ha]
    · exact ih h
  | case5 _ _ _ _ _ ih => exact ih h

/-- Both readings are at the same place, with the same values for all names that are ahead. -/
def AgreeAt (vars vars' : Variables) (c c' : Cursor) : Prop :=
  c = c' ∧ Agree (names c.rest) vars vars'

private theorem inStep_of_agree (vars vars' : Variables) :
    InStep vars vars' (fun _ => False) Eq (AgreeAt vars vars') where
  far_mono := fun _ h => h
  level_succ := congrArg (· + 1)
  offset := fun h => congrArg Cursor.offset h.1
  skip := by
    rintro c _ ⟨rfl, ha⟩ -
    rw [← names_skipBlanks] at ha
    exact ⟨⟨rfl, ha⟩, rfl⟩
  mark := by
    rintro c _ m r r' ⟨rfl, ha⟩ hr hr' hm
    obtain rfl := (List.cons.inj (hr.symm.trans hr')).2
    rw [hr, names_mark hm] at ha
    exact ⟨rfl, ha⟩
  number := by
    rintro c _ first r r' ⟨rfl, ha⟩ hr - hd -
    rw [names_at_digit hr hd] at ha
    exact ⟨rfl, rfl, ha⟩
  name := by
    rintro c _ first r r' ⟨rfl, ha⟩ hr - hs -
    rw [names_at_nameStart hr hs] at ha
    obtain ⟨hv, ha⟩ := List.forall_mem_cons.1 ha
    exact ⟨rfl, ⟨rfl, ha⟩, hv⟩

theorem evaluate_of_agree (h : Agree (names text) vars vars') :
    evaluate vars text = evaluate vars' text := by
  have hs : AgreeAt vars vars' (Cursor.start text) (Cursor.start text) := ⟨rfl, h⟩
  have hg := (inStep_of_agree vars vars').gives_evaluate hs
  cases he : evaluate vars text with
  | ok v =>
    rw [he] at hg
    exact (hg fun _ => id).symm
  | error fault =>
    rw [he] at hg
    obtain ⟨fault', hf, ha⟩ := hg id
    rw [ha.eq, hf]

end Names

end BlockTrace.Expression

namespace BlockTrace.Condition
open Expression (Agree Variables isName names)

section Operators
variable {vars vars' : Variables} {text : List Char}

private theorem isMark_of_mem_symbol (op : Operator) :
    ∀ c ∈ op.symbol.toList, Expression.isMark c ∧ Expression.isNameRest c = false := by
  have hs : ∀ c ∈ op.symbol.toList, c ∈ ['=', '!', '<', '>'] := by
    cases op <;> simp [Operator.symbol]
  intro c hc
  have hm := hs c hc
  simp only [List.mem_cons, List.not_mem_nil, or_false] at hm
  rcases hm with rfl | rfl | rfl | rfl <;> decide

/-- An operator neither has a part in the names around it nor joins two of them. -/
theorem names_append_operator (before after : List Char) (op : Operator) :
    names (before ++ op.symbol.toList ++ after) = names before ++ names after := by
  have hm := isMark_of_mem_symbol op
  cases hs : op.symbol.toList with
  | nil => cases op <;> cases hs
  | cons c more =>
    rw [hs, List.forall_mem_cons] at hm
    obtain ⟨⟨hc, hn⟩, hmore⟩ := hm
    rw [List.append_assoc, List.cons_append, Expression.names_append_cons hc hn,
      Expression.names_marks fun d hd => (hmore d hd).1]

theorem Comparison.Cuts.names_eq {c : Comparison} {before after : List Char}
    (h : c.Cuts text before after) : names text = names c.left ++ names c.right := by
  rw [h.parts, names_append_operator, h.left, h.right, Expression.names_trim,
    Expression.names_trim]

theorem evaluate_of_agree (h : Agree (names text) vars vars') :
    evaluate vars text = evaluate vars' text := by
  unfold evaluate
  cases hs : Comparison.split? text with
  | none => rfl
  | some c =>
    obtain ⟨before, after, hc⟩ := Comparison.cuts_of_split? hs
    rw [hc.names_eq] at h
    have hl : Expression.evaluate vars c.left = Expression.evaluate vars' c.left :=
      Expression.evaluate_of_agree fun name hn => h name (List.mem_append_left _ hn)
    have hr : Expression.evaluate vars c.right = Expression.evaluate vars' c.right :=
      Expression.evaluate_of_agree fun name hn => h name (List.mem_append_right _ hn)
    simp only [Comparison.evaluate, operand, hl, hr]

end Operators

/-- Variables that agree on the names in a text, be it that these have the same value or that they
have none, give the text the same value as an expression and as a condition, or the same fault at
the same place. So variables that agree on everything with the shape of a name give every text the
same, however they differ elsewhere. -/
theorem names_decide_evaluation (vars vars' : Variables) :
    (∀ text, Agree (names text) vars vars' →
      Expression.evaluate vars text = Expression.evaluate vars' text ∧
        evaluate vars text = evaluate vars' text) ∧
    ((∀ name, isName name → vars[name]? = vars'[name]?) → ∀ text,
      Expression.evaluate vars text = Expression.evaluate vars' text ∧
        evaluate vars text = evaluate vars' text) := by
  constructor
  · intro text h
    exact ⟨Expression.evaluate_of_agree h, evaluate_of_agree h⟩
  · intro h text
    have ha : Agree (names text) vars vars' :=
      fun name hn => h name (Expression.isName_of_mem_names hn)
    exact ⟨Expression.evaluate_of_agree ha, evaluate_of_agree ha⟩

/-- The condition names one variable, twice, and goes wrong at a letter that begins no name. That
the variables differ in another name does not show, nor that one has this letter for its name. -/
theorem condition_reads_one_variable :
    names "a <= 1a + é".toList = ["a", "a"] ∧
    evaluate (((∅ : Variables).insert "b" 5).insert "a" 2) "a <= 1a + é".toList =
      evaluate (((∅ : Variables).insert "é" 1).insert "a" 2) "a <= 1a + é".toList ∧
    isName "é" = false ∧
    Expression.evaluate ((∅ : Variables).insert "é" 1) "2 * é".toList =
      Expression.evaluate ∅ "2 * é".toList := by
  have hn : names "a <= 1a + é".toList = ["a", "a"] := by cbv
  have hb : isName "é" = false := by decide
  refine ⟨hn, ?_, hb, ?_⟩
  · refine ((names_decide_evaluation _ _).1 _ ?_).2
    rw [hn]
    intro name hm
    obtain rfl : name = "a" := by simpa using hm
    rw [Std.ExtTreeMap.getElem?_insert_self, Std.ExtTreeMap.getElem?_insert_self]
  · refine ((names_decide_evaluation _ _).2 ?_ _).1
    intro name hname
    have hne : compare "é" name ≠ .eq := by
      intro he
      rw [← Std.LawfulEqCmp.eq_of_compare he, hb] at hname
      cases hname
    rw [Std.ExtTreeMap.getElem?_insert, if_neg hne]

end BlockTrace.Condition
