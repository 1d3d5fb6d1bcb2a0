import BlockTrace.Proofs.Expression.Places
import BlockTrace.Proofs.Expression.Stages
import Mathlib

/-! Where a text stops being the beginning of an expression. A fault of syntax is found at the first
character after which nothing could make an expression of the text any more, or at the end of a
text that was only too short. -/
namespace BlockTrace.Expression
open Text (Cursor Span isBlank)
open Stage (operand operator)

/-- The tokens of the text are an expression of the grammar. -/
def IsExpression (text : List Char) : Prop :=
  ∃ tree, Derives .expression (tokens text) tree

/-- Something, or nothing, can be added to the text that makes it an expression. -/
def Viable (text : List Char) : Prop :=
  ∃ more, IsExpression (text ++ more)

/-- The character at `p` is the first that cannot be right. -/
structure BreaksAt (text : List Char) (p : Nat) : Prop where
  viable : Viable (text.take p)
  wrong : ¬ Viable (text.take (p + 1))

/-- Nothing is wrong yet, but something is missing. -/
structure Unfinished (text : List Char) : Prop where
  viable : Viable text
  short : ¬ IsExpression text

/-- A fault of syntax is reported at the first character that cannot be right, if there is one. -/
def Fault.Prompt (text : List Char) (fault : Fault) : Prop :=
  match fault.cause with
  | .unexpectedCharacter _ p => BreaksAt text p
  | .trailingInput p => BreaksAt text p
  | .unexpectedEnd => Unfinished text
  | .unclosedGroup =>
    Unfinished text ∧ fault.span.stop = text.length ∨
      ∃ p, fault.span.start ≤ p ∧ fault.span.stop = p + 1 ∧ BreaksAt text p
  | .unknownVariable _ | .divisionByZero | .moduloByZero => True

/-- No token that begins with the character fits the stage. -/
def Stage.Refuses (s : Stage) (first : Char) : Prop :=
  ∀ more, ∃ token us, tokens (first :: more) = token :: us ∧ s.step token = none

section Stages
variable {k : Nat} {first : Char}

private theorem refuses_operand (hm : isMark first)
    (hp : first ≠ '(') : (operand k).Refuses first := by
  intro more
  exact ⟨_, _, tokens_mark hm more, if_neg hp⟩

private theorem refuses_operator (hb : isBlank first = false) (ha : AddOp.ofChar? first = none)
    (hm : MulOp.ofChar? first = none) (hk : first = ')' → k = 0) :
    (operator k).Refuses first := by
  intro more
  rw [tokens, if_neg (by simp [hb])]
  split
  · exact ⟨_, _, rfl, rfl⟩
  · split
    · exact ⟨_, _, rfl, rfl⟩
    · have hc : ¬ (first = ')' ∧ 0 < k) := by
        rintro ⟨hf, hpos⟩
        exact Nat.ne_of_gt hpos (hk hf)
      refine ⟨_, _, rfl, ?_⟩
      rw [Stage.step, ha, hm, if_neg (by decide), if_neg hc]

/-- A text that leads from a stage to the end of an expression. -/
def Stage.completion : Stage → List Char
  | operand k => ' ' :: '1' :: ' ' :: List.replicate k ')'
  | operator k => ' ' :: List.replicate k ')'

private theorem tokens_append_blank (x y : List Char) :
    tokens (x ++ ' ' :: y) = tokens x ++ tokens y := by
  rw [tokens_append_cons (by decide) (isNameRest_of_isBlank (by decide)), tokens_blank (by decide)]

/-- From every stage an expression can be completed. -/
theorem after_completion (s : Stage) (text : List Char) :
    ∃ us, tokens (text ++ s.completion) = tokens text ++ us ∧ s.after us = some (operator 0) := by
  have hc : ∀ k, (operator k).after (tokens (List.replicate k ')')) = some (operator 0) := by
    intro k
    induction k with
    | zero => rw [List.replicate_zero, tokens_nil]; rfl
    | succ k ih => rw [List.replicate_succ, tokens_mark (by decide)]; exact ih
  cases s with
  | operator k => exact ⟨_, tokens_append_blank text _, hc k⟩
  | operand k =>
    have ht : tokens (['1'] ++ ' ' :: List.replicate k ')') =
        .number ['1'] :: tokens (List.replicate k ')') := by
      rw [tokens_append_blank]
      cbv
    exact ⟨_, tokens_append_blank text _, by rw [← List.singleton_append, ht]; exact hc k⟩

theorem isExpression_iff {text : List Char} :
    IsExpression text ↔ (operand 0).after (tokens text) = some (operator 0) :=
  derives_iff_after

theorem viable_of_after {s : Stage} {text : List Char}
    (h : (operand 0).after (tokens text) = some s) : Viable text := by
  obtain ⟨us, ht, hs⟩ := after_completion s text
  refine ⟨s.completion, isExpression_iff.2 ?_⟩
  rw [ht, Stage.after_append_of_eq h, hs]

end Stages

/-- The tokens of the text part at `c`, and the scan comes to the stage there. -/
def Stands (text : List Char) (s : Stage) (c : Cursor) : Prop :=
  ∃ read, (Cursor.start text).Passes read c ∧ tokens text = tokens read ++ tokens c.rest ∧
    (operand 0).after (tokens read) = some s

section Stands
variable {text : List Char} {s t : Stage} {c d : Cursor}

private theorem stands_start (text : List Char) : Stands text (operand 0) (Cursor.start text) := by
  refine ⟨[], .refl _, ?_, ?_⟩
  · rw [tokens_nil]
    rfl
  · rw [tokens_nil]
    rfl

theorem Stands.advance {u : List Char} {us : List Token} (h : Stands text s c)
    (hu : c.Passes u d) (ht : tokens c.rest = us ++ tokens d.rest) (hs : s.after us = some t) :
    Stands text t d := by
  obtain ⟨read, hr, hc, ha⟩ := h
  have hp := hr.trans hu
  have hw : tokens text = (tokens read ++ us) ++ tokens d.rest := by
    rw [hc, ht, List.append_assoc]
  have hcut : tokens (read ++ u) = tokens read ++ us := by
    have htext : text = read ++ u ++ d.rest := hp.rest
    rw [htext] at hw
    exact tokens_of_cut hw
  refine ⟨read ++ u, hp, ?_, ?_⟩
  · rw [hcut, hw]
  · rw [hcut, Stage.after_append_of_eq ha, hs]

theorem Stands.skipBlanks (h : Stands text s c) : Stands text s c.skipBlanks :=
  h.advance (.skipBlanks c) (tokens_skipBlanks c).symm Stage.after_nil

theorem Stands.token {token : Token} {u : List Char} (h : Stands text s c)
    (hu : c.skipBlanks.Passes u d) (ht : tokens c.rest = token :: tokens d.rest)
    (hs : s.step token = some t) : Stands text t d := by
  rw [← tokens_skipBlanks, ← List.singleton_append] at ht
  exact h.skipBlanks.advance hu ht (Stage.after_singleton.trans hs)

theorem Stands.mark {m : Char} {rest : List Char} (h : Stands text s c)
    (hc : c.skipBlanks.rest = m :: rest) (hm : isMark m) (hs : s.step (.mark m) = some t) :
    Stands text t ⟨rest, c.skipBlanks.offset + 1⟩ := by
  have hu : c.skipBlanks.Passes [m] ⟨rest, c.skipBlanks.offset + 1⟩ := ⟨hc, rfl⟩
  exact h.token hu (tokens_of_mark hc hm) hs

theorem Stands.accept {α : Type} {f : Char → Option α} {a : α} (h : Stands text s c)
    (hf : ∀ m b, f m = some b → isMark m) (hs : ∀ m, f m = some a → s.step (.mark m) = some t)
    (ha : c.skipBlanks.accept? f = some (a, d)) : Stands text t d := by
  obtain ⟨m, hm, hr, ho⟩ := accept?_eq_some_iff.1 ha
  have hd : d = ⟨d.rest, c.skipBlanks.offset + 1⟩ := by rw [← ho]
  exact hd ▸ h.mark hr (hf m a hm) (hs m hm)

theorem Stands.length (h : Stands text s c) : c.offset + c.rest.length = text.length := by
  obtain ⟨read, hr, -, -⟩ := h
  have ht : text.length = (read ++ c.rest).length := congrArg List.length hr.rest
  have ho : c.offset = 0 + read.length := hr.offset
  rw [ht, ho, List.length_append, Nat.zero_add]

theorem Stands.breaksAt {first : Char} {rest : List Char} (h : Stands text s c)
    (hc : c.rest = first :: rest) (hs : s.Refuses first) : BreaksAt text c.offset := by
  obtain ⟨read, hr, ht, ha⟩ := h
  have htext : text = read ++ first :: rest := by rw [← hc, ← hr.rest]; rfl
  have ho : c.offset = read.length := by rw [hr.offset]; exact Nat.zero_add _
  subst htext
  rw [hc] at ht
  constructor
  · rw [ho, List.take_left]
    exact viable_of_after ha
  · rw [ho, List.take_length_add_append, List.take_succ_cons, List.take_zero]
    rintro ⟨more, hx⟩
    -- Whatever follows, the token that begins with the character stops the scan.
    obtain ⟨token, us, hw, hn⟩ := hs more
    rw [isExpression_iff, List.append_assoc, List.singleton_append, tokens_append_of_cut ht, hw,
      Stage.after_append_of_eq ha, Stage.after_cons, hn, Option.bind_none] at hx
    cases hx

theorem Stands.unfinished (h : Stands text s c) (hc : c.rest = []) (hs : s ≠ operator 0) :
    Unfinished text := by
  obtain ⟨read, -, ht, ha⟩ := h
  rw [hc, tokens_nil, List.append_nil] at ht
  rw [← ht] at ha
  refine ⟨viable_of_after ha, fun hx => hs ?_⟩
  exact Option.some.inj (ha.symm.trans (isExpression_iff.1 hx))

end Stands

/-- At `c` a phrase is over: no operator that goes on with it stands there. -/
def Over (text : List Char) (k : Nat) (c : Cursor) : Phrase → Prop
  | .factor => Stands text (operator k) c
  | .term => Stands text (operator k) c ∧ c.skipBlanks.accept? MulOp.ofChar? = none
  | .expression => Stands text (operator k) c ∧ c.skipBlanks.accept? MulOp.ofChar? = none ∧
      c.skipBlanks.accept? AddOp.ofChar? = none

section Over
variable {text : List Char} {k : Nat} {c d : Cursor} {v w : Int32}

/-- What stands behind an expression, if it does not close a group, is wrong. -/
theorem Over.breaksAt {first : Char} {rest : List Char} (h : Over text k c .expression)
    (hc : c.skipBlanks.rest = first :: rest) (hk : first = ')' → k = 0) :
    BreaksAt text c.skipBlanks.offset := by
  obtain ⟨hs, hm, ha⟩ := h
  have hr : (operator k).Refuses first :=
    refuses_operator (isBlank_head_skipBlanks hc) (ofChar?_of_accept? ha hc)
      (ofChar?_of_accept? hm hc) hk
  exact hs.skipBlanks.breaksAt hc hr

private theorem over_of_closeGroup {start : Nat} (h : Over text (k + 1) d .expression)
    (hd : start ≤ d.skipBlanks.offset) :
    Gives (fun p => Over text k p.2 .factor) (Fault.Prompt text) (closeGroup start (v, d)) := by
  have hs : Stands text (operator (k + 1)) d.skipBlanks := h.1.skipBlanks
  have hl := hs.length
  cases hn : d.skipBlanks.rest with
  | nil =>
    rw [closeGroup_of_end _ v hn]
    refine .inl ⟨hs.unfinished hn (by simp), ?_⟩
    rw [hn, List.length_nil, Nat.add_zero] at hl
    rw [← hl]
    exact Nat.add_sub_cancel' hd
  | cons mark more =>
    by_cases hm : mark = ')'
    · subst hm
      have hx : closeGroup start (v, d) = .ok (v, ⟨more, d.skipBlanks.offset + 1⟩) :=
        closeGroup_eq_ok_iff.2 ⟨rfl, hn, rfl⟩
      rw [hx]
      exact h.1.mark hn (by decide) rfl
    · rw [closeGroup_of_wrong _ v hn hm]
      refine .inr ⟨d.skipBlanks.offset, hd, ?_, h.breaksAt hn fun he => absurd he hm⟩
      exact Nat.add_sub_cancel' (Nat.le_succ_of_le hd)

private theorem prompt_of_apply {op : MulOp} {cause : Cause} {span : Span}
    (h : op.apply v w = .error cause) : Fault.Prompt text ⟨cause, span⟩ := by
  obtain ⟨-, ⟨-, rfl⟩ | ⟨-, rfl⟩⟩ := MulOp.apply_eq_error h
  · trivial
  · trivial

end Over

/-- Every routine that begins where its phrase is due comes to the end of the phrase, or it fails
at the first character that cannot be right. -/
theorem over_of_plain (vars : Variables) (text : List Char) :
    (∀ c k, Stands text (operand k) c → Gives (fun p => Over text k p.2 .expression)
      (Fault.Prompt text) (plain (expression vars c))) ∧
    (∀ w c k, Over text k c .term → Gives (fun p => Over text k p.2 .expression)
      (Fault.Prompt text) (plain (sum vars w c))) ∧
    (∀ c k, Stands text (operand k) c → Gives (fun p => Over text k p.2 .term)
      (Fault.Prompt text) (plain (term vars c))) ∧
    (∀ w c k, Over text k c .factor → Gives (fun p => Over text k p.2 .term)
      (Fault.Prompt text) (plain (product vars w c))) ∧
    (∀ c k, Stands text (operand k) c → Gives (fun p => Over text k p.2 .factor)
      (Fault.Prompt text) (plain (factor vars c))) := by
  refine expression.mutual_induct _ _ _ _ _ ?expression ?sumStop ?sumGo ?term ?productStop
    ?productGo ?factorEnd ?factorGroup ?factorDigit ?factorName ?factorMark
  case expression =>
    intro c ihTerm ihSum k h
    rw [plain_expression]
    exact gives_bind_plain (ihTerm k h) fun r ho => ihSum r k ho
  case sumStop =>
    intro w c ha k h
    rw [plain_sum_none vars w ha]
    refine ⟨h.1.skipBlanks, ?_, ?_⟩
    · rw [skipBlanks_skipBlanks]
      exact h.2
    · rw [skipBlanks_skipBlanks]
      exact ha
  case sumGo =>
    intro w c op d ha _ ihTerm ihSum k h
    rw [plain_sum_some vars w ha]
    have hd : Stands text (operand k) d :=
      h.1.accept AddOp.isMark_of_ofChar?
        (fun m hm => AddOp.symbol_of_ofChar? hm ▸ Stage.step_addOp k op) ha
    exact gives_bind_plain (ihTerm k hd) fun r ho => ihSum r k ho
  case term =>
    intro c ihFactor ihProduct k h
    rw [plain_term]
    exact gives_bind_plain (ihFactor k h) fun r ho => ihProduct r k ho
  case productStop =>
    intro w c ha k h
    rw [plain_product_none vars w ha]
    refine ⟨Stands.skipBlanks h, ?_⟩
    rw [skipBlanks_skipBlanks]
    exact ha
  case productGo =>
    intro w c op d ha _ ihFactor ihProduct k h
    rw [plain_product_some vars w ha]
    have hd : Stands text (operand k) d :=
      Stands.accept h MulOp.isMark_of_ofChar?
        (fun m hm => MulOp.symbol_of_ofChar? hm ▸ Stage.step_mulOp k op) ha
    refine gives_bind_plain (ihFactor k hd) fun r ho => ?_
    split
    next cause hcause => exact prompt_of_apply hcause
    next result _ => exact ihProduct r result k ho
  case factorEnd =>
    intro c _ _ hr k h
    rw [plain_factor_end vars hr]
    exact h.skipBlanks.unfinished hr (by simp)
  case factorGroup =>
    intro c _ _ rest hr _ ihExpression k h
    rw [plain_factor_group vars hr]
    have hd : Stands text (operand (k + 1)) ⟨rest, c.skipBlanks.offset + 1⟩ :=
      h.mark hr (by decide) rfl
    refine gives_bind_plain (ihExpression (k + 1) hd) fun r ho => over_of_closeGroup ho ?_
    -- What is left behind the inner expression is shorter, so its end stands further on.
    have hl := hd.length
    have he := ho.1.skipBlanks.length
    have hs := r.shorter
    have hb := r.next.skipBlanks_le
    dsimp only at hl hs he
    omega
  case factorDigit =>
    intro c _ _ first rest hr _ hd k h
    rw [plain_factor_digit vars hr hd]
    exact h.token (.takeWhile _ _) (tokens_of_digit hr hd) rfl
  case factorName =>
    intro c _ _ first rest hr _ _ hs k h
    rw [plain_factor_name vars hr hs]
    split
    · exact h.token (.takeWhile _ _) (tokens_of_nameStart hr hs) rfl
    · trivial
  case factorMark =>
    intro c _ _ first rest hr hp hd hs k h
    have hm : isMark first := by simp [isMark, isBlank_head_skipBlanks hr, hd, hs]
    rw [plain_factor_mark vars hr hp hm]
    exact h.skipBlanks.breaksAt hr (refuses_operand hm hp)

private theorem evaluate_prompt (vars : Variables) (text : List Char) :
    Gives (fun _ => True) (Fault.Prompt text) (evaluate vars text) := by
  rw [evaluate_eq_plain]
  refine ((over_of_plain vars text).1 _ 0 (stands_start text)).bind fun p ho => ?_
  split
  · trivial
  next first rest hr => exact ho.breaksAt hr fun _ => rfl

/-- A fault of syntax is reported at the first character that cannot be right: the text in front of
it can be completed to an expression, and with it no more. If the text ends too soon, it can be
completed as a whole. -/
theorem fault_at_first_wrong_character {vars : Variables} {text : List Char} {fault : Fault}
    (h : evaluate vars text = .error fault) : fault.Prompt text := by
  have hp := evaluate_prompt vars text
  rw [h] at hp
  exact hp

/-- The group could be closed after `12`, or go on with an operator, but not with a name. -/
theorem group_breaks_at_name :
    evaluate ((∅ : Variables).insert "x" 3) "2 * (x + 12 y) - 1".toList =
      .error ⟨.unclosedGroup, ⟨4, 9⟩⟩ ∧
    Viable "2 * (x + 12 ".toList ∧ ¬ Viable "2 * (x + 12 y".toList := by
  have h : evaluate ((∅ : Variables).insert "x" 3) "2 * (x + 12 y) - 1".toList =
      .error ⟨.unclosedGroup, ⟨4, 9⟩⟩ := by
    cbv
  refine ⟨h, ?_⟩
  obtain ⟨-, hs⟩ | ⟨p, -, hs, hb⟩ := fault_at_first_wrong_character h
  · exact absurd hs (by decide)
  · obtain rfl : 12 = p := Nat.succ.inj hs
    exact ⟨hb.viable, hb.wrong⟩

end BlockTrace.Expression
