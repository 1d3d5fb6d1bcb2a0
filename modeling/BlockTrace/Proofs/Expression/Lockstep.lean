import BlockTrace.Proofs.Expression.Grammar
import BlockTrace.Proofs.Expression.Routines

/-! Two readings in step. Where the places in two texts belong together, every routine gives the same
value and stops again at places that belong together, or it fails for the same cause. Nothing is said
of what happens once the first reading has gone too far. -/
namespace BlockTrace.Text

theorem Span.le_stop_between (start stop : Nat) : stop ≤ (Span.between start stop).stop := by
  simp only [Span.between, Span.stop]
  omega

theorem Span.empty_eq_between (start : Nat) : (⟨start, 0⟩ : Span) = .between start start := by
  rw [Span.between, Nat.sub_self]

theorem Span.single_eq_between (start : Nat) : Span.single start = .between start (start + 1) := by
  rw [Span.between, Nat.add_sub_cancel_left]
  rfl

end BlockTrace.Text

namespace BlockTrace.Expression
open Text (Cursor Span)

/-- Goes on with the operand of an operation, which begins at `start`. -/
def operate (vars : Variables) (op : MulOp) (value : Int32) (start : Nat) (p : Int32 × Cursor) :
    Except Fault (Int32 × Cursor) :=
  match op.apply value p.1 with
  | .error cause => .error ⟨cause, Span.between start p.2.offset⟩
  | .ok result => plain (product vars result p.2)

theorem plain_product_eq_operate (vars : Variables) {c d : Cursor} {op : MulOp} (value : Int32)
    (h : c.skipBlanks.accept? MulOp.ofChar? = some (op, d)) :
    plain (product vars value c) =
      plain (factor vars d) >>= operate vars op value d.skipBlanks.offset :=
  plain_product_some vars value h

/-- How far a routine came: to the place where it stopped, or to the end of what is wrong. -/
def Beyond (far : Nat → Prop) : Except Fault (Int32 × Cursor) → Prop :=
  Gives (fun p => far p.2.offset) (fun fault => far fault.span.stop)

section Ahead
variable {far far' : Nat → Prop} {c : Cursor} {n : Nat}

theorem Beyond.imp {x : Except Fault (Int32 × Cursor)} (h : Beyond far x)
    (hf : ∀ k, far k → far' k) : Beyond far' x := by
  cases x with
  | error fault => exact hf _ h
  | ok p => exact hf _ h

theorem offset_le_skipBlanks (c : Cursor) : c.offset ≤ c.skipBlanks.offset :=
  Nat.le_add_right _ _

private theorem beyond_bind {m : Nat} {x : Except Fault (Reading m)}
    {f : Int32 × Cursor → Except Fault (Int32 × Cursor)} (hx : Beyond (n ≤ ·) (plain x))
    (hf : ∀ r : Reading m, Beyond (r.next.skipBlanks.offset ≤ ·) (f (r.value, r.next))) :
    Beyond (n ≤ ·) (plain x >>= f) := by
  refine gives_bind_plain hx fun r hr => (hf r).imp fun k hk => ?_
  exact Nat.le_trans (Nat.le_trans hr (offset_le_skipBlanks r.next)) hk

private theorem beyond_accept {α : Type} {f : Char → Option α} {a : α} {d : Cursor}
    {x : Except Fault (Int32 × Cursor)} (ha : c.skipBlanks.accept? f = some (a, d))
    (hx : Beyond (d.skipBlanks.offset ≤ ·) x) : Beyond (c.skipBlanks.offset ≤ ·) x := by
  obtain ⟨m, -, -, ho⟩ := accept?_eq_some_iff.1 ha
  refine hx.imp fun k hk => ?_
  have hd := offset_le_skipBlanks d
  omega

theorem beyond_closeGroup (start : Nat) (p : Int32 × Cursor) :
    Beyond (p.2.skipBlanks.offset ≤ ·) (closeGroup start p) := by
  obtain ⟨v, e⟩ := p
  cases hn : e.skipBlanks.rest with
  | nil =>
    rw [closeGroup_of_end start v hn]
    exact Span.le_stop_between _ _
  | cons mark more =>
    by_cases hm : mark = ')'
    · subst hm
      have hx : closeGroup start (v, e) = .ok (v, ⟨more, e.skipBlanks.offset + 1⟩) :=
        closeGroup_eq_ok_iff.2 ⟨rfl, hn, rfl⟩
      rw [hx]
      exact Nat.le_succ _
    · rw [closeGroup_of_wrong start v hn hm]
      exact Nat.le_trans (Nat.le_succ _) (Span.le_stop_between _ _)

theorem beyond_operate {vars : Variables} (op : MulOp) (v : Int32) (start : Nat)
    {p : Int32 × Cursor} (hp : ∀ w, Beyond (p.2.skipBlanks.offset ≤ ·) (plain (product vars w p.2))) :
    Beyond (p.2.offset ≤ ·) (operate vars op v start p) := by
  unfold operate
  split
  · exact Span.le_stop_between _ _
  · exact (hp _).imp fun k hk => Nat.le_trans (offset_le_skipBlanks p.2) hk

/-- No routine stops, and none finds anything wrong, before the first token at its place. -/
theorem beyond_of_plain (vars : Variables) :
    (∀ c, Beyond (c.skipBlanks.offset ≤ ·) (plain (expression vars c))) ∧
    (∀ w c, Beyond (c.skipBlanks.offset ≤ ·) (plain (sum vars w c))) ∧
    (∀ c, Beyond (c.skipBlanks.offset ≤ ·) (plain (term vars c))) ∧
    (∀ w c, Beyond (c.skipBlanks.offset ≤ ·) (plain (product vars w c))) ∧
    (∀ c, Beyond (c.skipBlanks.offset ≤ ·) (plain (factor vars c))) := by
  refine expression.mutual_induct _ _ _ _ _ ?expression ?sumStop ?sumGo ?term ?productStop
    ?productGo ?factorEnd ?factorGroup ?factorDigit ?factorName ?factorMark
  case expression =>
    intro c ihTerm ihSum
    rw [plain_expression]
    exact beyond_bind ihTerm ihSum
  case sumStop =>
    intro w c ha
    rw [plain_sum_none vars w ha]
    exact Nat.le_refl _
  case sumGo =>
    intro w c op d ha _ ihTerm ihSum
    rw [plain_sum_some vars w ha]
    exact beyond_accept ha (beyond_bind ihTerm ihSum)
  case term =>
    intro c ihFactor ihProduct
    rw [plain_term]
    exact beyond_bind ihFactor ihProduct
  case productStop =>
    intro w c ha
    rw [plain_product_none vars w ha]
    exact Nat.le_refl _
  case productGo =>
    intro w c op d ha _ ihFactor ihProduct
    rw [plain_product_eq_operate vars w ha]
    refine beyond_accept ha (gives_bind_plain ihFactor fun r hr => ?_)
    exact (beyond_operate op w _ (ihProduct r)).imp fun k hk => Nat.le_trans hr hk
  case factorEnd =>
    intro c _ _ hr
    rw [plain_factor_end vars hr]
    exact Nat.le_refl _
  case factorGroup =>
    intro c _ _ rest hr _ ihExpression
    rw [plain_factor_group vars hr]
    refine (beyond_bind ihExpression fun r => beyond_closeGroup _ _).imp fun k hk => ?_
    have ho := offset_le_skipBlanks ⟨rest, c.skipBlanks.offset + 1⟩
    exact Nat.le_trans (Nat.le_trans (Nat.le_succ _) ho) hk
  case factorDigit =>
    intro c _ _ first rest hr _ hd
    rw [plain_factor_digit vars hr hd]
    exact Nat.le_add_right _ _
  case factorName =>
    intro c _ _ first rest hr _ _ hs
    rw [plain_factor_name vars hr hs]
    split
    · exact Nat.le_add_right _ _
    · exact Nat.le_trans (Nat.le_add_right _ _) (Span.le_stop_between _ _)
  case factorMark =>
    intro c _ _ first rest hr hp hd hs
    have hm : isMark first := by simp [isMark, isBlank_head_skipBlanks hr, hd, hs]
    rw [plain_factor_mark vars hr hp hm]
    exact Nat.le_succ _

end Ahead

/-- The same cause; where it tells a position, the two positions are level. -/
inductive Cause.Alike (level : Nat → Nat → Prop) : Cause → Cause → Prop
  | unexpectedEnd : Alike level .unexpectedEnd .unexpectedEnd
  | unexpectedCharacter (found : Char) {m n : Nat} : level m n →
    Alike level (.unexpectedCharacter found m) (.unexpectedCharacter found n)
  | trailingInput {m n : Nat} : level m n → Alike level (.trailingInput m) (.trailingInput n)
  | unclosedGroup : Alike level .unclosedGroup .unclosedGroup
  | unknownVariable (name : String) : Alike level (.unknownVariable name) (.unknownVariable name)
  | divisionByZero : Alike level .divisionByZero .divisionByZero
  | moduloByZero : Alike level .moduloByZero .moduloByZero

/-- Causes that are alike, over stretches that begin and end level. -/
inductive Fault.Alike (level : Nat → Nat → Prop) : Fault → Fault → Prop
  | between {cause cause' : Cause} {start stop start' stop' : Nat} : cause.Alike level cause' →
    level start start' → level stop stop' →
    Alike level ⟨cause, .between start stop⟩ ⟨cause', .between start' stop'⟩

/-- What keeps two readings in step: how the places `twin` that belong together go on when blanks
are skipped, when a mark is read and when a run of digits or letters is. From the offsets on that
are `far`, the first reading need not be followed. -/
structure InStep (vars vars' : Variables) (far : Nat → Prop) (level : Nat → Nat → Prop)
    (twin : Cursor → Cursor → Prop) : Prop where
  far_mono : ∀ {m n}, m ≤ n → far m → far n
  level_succ : ∀ {m n}, level m n → level (m + 1) (n + 1)
  offset : ∀ {c c'}, twin c c' → level c.offset c'.offset
  skip : ∀ {c c'}, twin c c' → ¬ far c.skipBlanks.offset →
    twin c.skipBlanks c'.skipBlanks ∧ c.skipBlanks.rest.head? = c'.skipBlanks.rest.head?
  mark : ∀ {c c' m r r'}, twin c c' → c.rest = m :: r → c'.rest = m :: r' → isMark m →
    twin ⟨r, c.offset + 1⟩ ⟨r', c'.offset + 1⟩
  number : ∀ {c c' first r r'}, twin c c' → c.rest = first :: r → c'.rest = first :: r' →
    first.isDigit → ¬ far (c.takeWhile Char.isDigit).2.offset →
    (c.takeWhile Char.isDigit).1 = (c'.takeWhile Char.isDigit).1 ∧
      twin (c.takeWhile Char.isDigit).2 (c'.takeWhile Char.isDigit).2
  name : ∀ {c c' first r r'}, twin c c' → c.rest = first :: r → c'.rest = first :: r' →
    isNameStart first → ¬ far (c.takeWhile isNameRest).2.offset →
    (c.takeWhile isNameRest).1 = (c'.takeWhile isNameRest).1 ∧
      twin (c.takeWhile isNameRest).2 (c'.takeWhile isNameRest).2 ∧
      vars[String.ofList (c.takeWhile isNameRest).1]? =
        vars'[String.ofList (c.takeWhile isNameRest).1]?

/-- Both give the same value at places that belong together, or faults that are alike, unless the
first went too far. -/
inductive Parallel (far : Nat → Prop) (level : Nat → Nat → Prop) (twin : Cursor → Cursor → Prop) :
    Except Fault (Int32 × Cursor) → Except Fault (Int32 × Cursor) → Prop
  | far {x x' : Except Fault (Int32 × Cursor)} : Beyond far x → Parallel far level twin x x'
  | ok (v : Int32) {c c' : Cursor} : twin c c' → Parallel far level twin (.ok (v, c)) (.ok (v, c'))
  | error {fault fault' : Fault} : fault.Alike level fault' →
    Parallel far level twin (.error fault) (.error fault')

section InStep
variable {vars vars' : Variables} {far : Nat → Prop} {level : Nat → Nat → Prop}
  {twin : Cursor → Cursor → Prop} {c c' d : Cursor} {v : Int32}

theorem Parallel.bind {n n' : Nat} {x : Except Fault (Reading n)} {x' : Except Fault (Reading n')}
    {f f' : Int32 × Cursor → Except Fault (Int32 × Cursor)}
    (h : Parallel far level twin (plain x) (plain x'))
    (hfar : ∀ r : Reading n, far r.next.offset → Beyond far (f (r.value, r.next)))
    (hf : ∀ (r : Reading n) e, twin r.next e →
      Parallel far level twin (f (r.value, r.next)) (f' (r.value, e))) :
    Parallel far level twin (plain x >>= f) (plain x' >>= f') := by
  cases x with
  | error fault =>
    generalize plain x' = y at h ⊢
    cases h with
    | far hb => exact .far hb
    | error ha => exact .error ha
  | ok r =>
    change Parallel far level twin (f (r.value, r.next)) (plain x' >>= f')
    change Parallel far level twin (.ok (r.value, r.next)) (plain x') at h
    generalize plain x' = y at h ⊢
    cases h with
    | far hb => exact .far (hfar r hb)
    | ok _ ht => exact hf r _ ht

namespace InStep
variable (hs : InStep vars vars' far level twin)
include hs

/-- What is ahead of a place that is too far is too far. -/
theorem beyond {n : Nat} {x : Except Fault (Int32 × Cursor)} (h : far n)
    (hx : Beyond (n ≤ ·) x) : Beyond far x :=
  hx.imp fun _ hk => hs.far_mono hk h

theorem beyond_next {x : Except Fault (Int32 × Cursor)} (h : far c.offset)
    (hx : Beyond (c.skipBlanks.offset ≤ ·) x) : Beyond far x :=
  hs.beyond (hs.far_mono (offset_le_skipBlanks c) h) hx

/-- Only what begins at a place that is not too far has to be followed. -/
theorem near {n : Nat} {x x' : Except Fault (Int32 × Cursor)} (hx : Beyond (n ≤ ·) x)
    (h : ¬ far n → Parallel far level twin x x') : Parallel far level twin x x' := by
  by_cases hn : far n
  · exact .far (hs.beyond hn hx)
  · exact h hn

/-- The next character is the same on both sides. -/
theorem next {first : Char} {rest : List Char} (ht : twin c c') (hn : ¬ far c.skipBlanks.offset)
    (hc : c.skipBlanks.rest = first :: rest) :
    ∃ rest', c'.skipBlanks.rest = first :: rest' := by
  have hh := (hs.skip ht hn).2
  rw [hc, List.head?_cons] at hh
  exact List.head?_eq_some_iff.1 hh.symm

theorem next_end (ht : twin c c') (hn : ¬ far c.skipBlanks.offset)
    (hc : c.skipBlanks.rest = []) : c'.skipBlanks.rest = [] := by
  have hh := (hs.skip ht hn).2
  rw [hc, List.head?_nil] at hh
  exact List.head?_eq_none_iff.1 hh.symm

theorem accept_none {α : Type} {f : Char → Option α} (ht : twin c c')
    (hn : ¬ far c.skipBlanks.offset) (ha : c.skipBlanks.accept? f = none) :
    c'.skipBlanks.accept? f = none := by
  cases hc : c.skipBlanks.rest with
  | nil => simp [Cursor.accept?, Cursor.next?, hs.next_end ht hn hc]
  | cons first rest =>
    obtain ⟨rest', hc'⟩ := hs.next ht hn hc
    simp [Cursor.accept?, Cursor.next?, hc', ofChar?_of_accept? ha hc]

theorem accept_some {α : Type} {f : Char → Option α} {a : α}
    (hf : ∀ m b, f m = some b → isMark m) (ht : twin c c') (hn : ¬ far c.skipBlanks.offset)
    (ha : c.skipBlanks.accept? f = some (a, d)) :
    ∃ d', c'.skipBlanks.accept? f = some (a, d') ∧ twin d d' := by
  obtain ⟨m, hm, hr, ho⟩ := accept?_eq_some_iff.1 ha
  obtain ⟨rest', hr'⟩ := hs.next ht hn hr
  have hd : d = ⟨d.rest, c.skipBlanks.offset + 1⟩ := by rw [← ho]
  refine ⟨⟨rest', c'.skipBlanks.offset + 1⟩, accept?_eq_some_iff.2 ⟨m, hm, hr', rfl⟩, ?_⟩
  rw [hd]
  exact hs.mark (hs.skip ht hn).1 hr hr' (hf m a hm)

private theorem parallel_closeGroup {start start' : Nat} (hl : level start start')
    (ht : twin c c') :
    Parallel far level twin (closeGroup start (v, c)) (closeGroup start' (v, c')) := by
  refine hs.near (beyond_closeGroup start (v, c)) fun hn => ?_
  have ht' := (hs.skip ht hn).1
  have ho := hs.offset ht'
  cases hr : c.skipBlanks.rest with
  | nil =>
    rw [closeGroup_of_end start v hr, closeGroup_of_end start' v (hs.next_end ht hn hr)]
    exact .error (.between .unclosedGroup hl ho)
  | cons mark more =>
    obtain ⟨more', hr'⟩ := hs.next ht hn hr
    by_cases hm : mark = ')'
    · subst hm
      have hx : closeGroup start (v, c) = .ok (v, ⟨more, c.skipBlanks.offset + 1⟩) :=
        closeGroup_eq_ok_iff.2 ⟨rfl, hr, rfl⟩
      have hx' : closeGroup start' (v, c') = .ok (v, ⟨more', c'.skipBlanks.offset + 1⟩) :=
        closeGroup_eq_ok_iff.2 ⟨rfl, hr', rfl⟩
      rw [hx, hx']
      exact .ok v (hs.mark ht' hr hr' (by decide))
    · rw [closeGroup_of_wrong start v hr hm, closeGroup_of_wrong start' v hr' hm]
      exact .error (.between .unclosedGroup hl (hs.level_succ ho))

private theorem parallel_operate (op : MulOp) {start start' : Nat} {w : Int32}
    (hl : level start start')
    (ht : twin c c') (hx : ∀ x,
      Parallel far level twin (plain (product vars x c)) (plain (product vars' x c'))) :
    Parallel far level twin (operate vars op v start (w, c)) (operate vars' op v start' (w, c')) := by
  have ho := hs.offset ht
  unfold operate
  dsimp only
  cases h : op.apply v w with
  | ok x => exact hx x
  | error cause =>
    obtain ⟨-, ⟨-, rfl⟩ | ⟨-, rfl⟩⟩ := MulOp.apply_eq_error h
    · exact .error (.between .divisionByZero hl ho)
    · exact .error (.between .moduloByZero hl ho)

private theorem parallel_digit {first : Char} {rest : List Char}
    (hc : c.skipBlanks.rest = first :: rest)
    (hd : first.isDigit) (ht : twin c c') (hn : ¬ far c.skipBlanks.offset) :
    Parallel far level twin (plain (factor vars c)) (plain (factor vars' c')) := by
  obtain ⟨rest', hc'⟩ := hs.next ht hn hc
  rw [plain_factor_digit vars hc hd, plain_factor_digit vars' hc' hd]
  by_cases hf : far (c.skipBlanks.takeWhile Char.isDigit).2.offset
  · exact .far hf
  · obtain ⟨hrun, ht'⟩ := hs.number (hs.skip ht hn).1 hc hc' hd hf
    rw [hrun]
    exact .ok _ ht'

private theorem parallel_name {first : Char} {rest : List Char}
    (hc : c.skipBlanks.rest = first :: rest)
    (hf : isNameStart first) (ht : twin c c') (hn : ¬ far c.skipBlanks.offset) :
    Parallel far level twin (plain (factor vars c)) (plain (factor vars' c')) := by
  obtain ⟨rest', hc'⟩ := hs.next ht hn hc
  rw [plain_factor_name vars hc hf, plain_factor_name vars' hc' hf]
  by_cases hr : far (c.skipBlanks.takeWhile isNameRest).2.offset
  · refine .far ?_
    split
    · exact hr
    · exact hs.far_mono (Span.le_stop_between _ _) hr
  · obtain ⟨hrun, ht', hv⟩ := hs.name (hs.skip ht hn).1 hc hc' hf hr
    rw [← hrun, ← hv]
    split
    · exact .ok _ ht'
    · exact .error (.between (.unknownVariable _) (hs.offset (hs.skip ht hn).1) (hs.offset ht'))

/-- The routines stay in step. -/
theorem parallel :
    (∀ c c', twin c c' →
      Parallel far level twin (plain (expression vars c)) (plain (expression vars' c'))) ∧
    (∀ w c c', twin c c' →
      Parallel far level twin (plain (sum vars w c)) (plain (sum vars' w c'))) ∧
    (∀ c c', twin c c' →
      Parallel far level twin (plain (term vars c)) (plain (term vars' c'))) ∧
    (∀ w c c', twin c c' →
      Parallel far level twin (plain (product vars w c)) (plain (product vars' w c'))) ∧
    (∀ c c', twin c c' →
      Parallel far level twin (plain (factor vars c)) (plain (factor vars' c'))) := by
  -- The induction follows the first reading; the second is at a place that belongs to it.
  obtain ⟨-, hsum, -, hproduct, hfactor⟩ := beyond_of_plain vars
  refine expression.mutual_induct _ _ _ _ _ ?expression ?sumStop ?sumGo ?term ?productStop
    ?productGo ?factorEnd ?factorGroup ?factorDigit ?factorName ?factorMark
  case expression =>
    intro c ihTerm ihSum c' ht
    rw [plain_expression, plain_expression]
    exact (ihTerm c' ht).bind (fun r hr => hs.beyond_next hr (hsum _ _)) ihSum
  case sumStop =>
    intro w c ha c' ht
    refine hs.near (hsum w c) fun hn => ?_
    rw [plain_sum_none vars w ha, plain_sum_none vars' w (hs.accept_none ht hn ha)]
    exact .ok w (hs.skip ht hn).1
  case sumGo =>
    intro w c op d ha _ ihTerm ihSum c' ht
    refine hs.near (hsum w c) fun hn => ?_
    obtain ⟨d', ha', hd⟩ := hs.accept_some AddOp.isMark_of_ofChar? ht hn ha
    rw [plain_sum_some vars w ha, plain_sum_some vars' w ha']
    exact (ihTerm d' hd).bind (fun r hr => hs.beyond_next hr (hsum _ _)) ihSum
  case term =>
    intro c ihFactor ihProduct c' ht
    rw [plain_term, plain_term]
    exact (ihFactor c' ht).bind (fun r hr => hs.beyond_next hr (hproduct _ _)) ihProduct
  case productStop =>
    intro w c ha c' ht
    refine hs.near (hproduct w c) fun hn => ?_
    rw [plain_product_none vars w ha, plain_product_none vars' w (hs.accept_none ht hn ha)]
    exact .ok w (hs.skip ht hn).1
  case productGo =>
    intro w c op d ha _ ihFactor ihProduct c' ht
    refine hs.near (hproduct w c) fun hn => ?_
    obtain ⟨d', ha', hd⟩ := hs.accept_some MulOp.isMark_of_ofChar? ht hn ha
    rw [plain_product_eq_operate vars w ha, plain_product_eq_operate vars' w ha']
    have hnext : ∀ r : Reading d.rest.length, far r.next.offset →
        Beyond far (operate vars op w d.skipBlanks.offset (r.value, r.next)) :=
      fun r hr => hs.beyond hr (beyond_operate op w _ fun x => hproduct x _)
    by_cases hf : far d.skipBlanks.offset
    · exact .far (gives_bind_plain (hs.beyond hf (hfactor d)) hnext)
    · have hl := hs.offset (hs.skip hd hf).1
      exact (ihFactor d' hd).bind hnext fun r e he =>
        hs.parallel_operate op hl he fun x => ihProduct r x e he
  case factorEnd =>
    intro c _ _ hr c' ht
    refine hs.near (hfactor c) fun hn => ?_
    have ho := hs.offset (hs.skip ht hn).1
    rw [plain_factor_end vars hr, plain_factor_end vars' (hs.next_end ht hn hr),
      Span.empty_eq_between, Span.empty_eq_between]
    exact .error (.between .unexpectedEnd ho ho)
  case factorGroup =>
    intro c _ _ rest hr _ ihExpression c' ht
    refine hs.near (hfactor c) fun hn => ?_
    obtain ⟨rest', hr'⟩ := hs.next ht hn hr
    have ht' := (hs.skip ht hn).1
    rw [plain_factor_group vars hr, plain_factor_group vars' hr']
    exact (ihExpression _ (hs.mark ht' hr hr' (by decide))).bind
      (fun r hf => hs.beyond_next hf (beyond_closeGroup _ _))
      fun r e he => hs.parallel_closeGroup (hs.offset ht') he
  case factorDigit =>
    intro c _ _ first rest hr _ hd c' ht
    exact hs.near (hfactor c) fun hn => hs.parallel_digit hr hd ht hn
  case factorName =>
    intro c _ _ first rest hr _ _ hf c' ht
    exact hs.near (hfactor c) fun hn => hs.parallel_name hr hf ht hn
  case factorMark =>
    intro c _ _ first rest hr hp hd hf c' ht
    refine hs.near (hfactor c) fun hn => ?_
    obtain ⟨rest', hr'⟩ := hs.next ht hn hr
    have ho := hs.offset (hs.skip ht hn).1
    have hm : isMark first := by simp [isMark, isBlank_head_skipBlanks hr, hd, hf]
    rw [plain_factor_mark vars hr hp hm, plain_factor_mark vars' hr' hp hm,
      Span.single_eq_between, Span.single_eq_between]
    exact .error (.between (.unexpectedCharacter first ho) ho (hs.level_succ ho))

/-- Texts that begin in step have the same value, or faults that are alike. -/
theorem gives_evaluate {text text' : List Char}
    (ht : twin (Cursor.start text) (Cursor.start text')) :
    Gives (fun v => (∀ n, ¬ far n) → evaluate vars' text' = .ok v)
      (fun fault => ¬ far fault.span.stop →
        ∃ fault', evaluate vars' text' = .error fault' ∧ fault.Alike level fault')
      (evaluate vars text) := by
  have hp := hs.parallel.1 _ _ ht
  rw [evaluate_eq_plain, evaluate_eq_plain]
  generalize plain (expression vars (Cursor.start text)) = x at hp ⊢
  generalize plain (expression vars' (Cursor.start text')) = x' at hp ⊢
  cases hp with
  | @far x x' hb =>
    cases x with
    | error fault => exact fun hn => absurd hb hn
    | ok p =>
      rw [ok_bind]
      split
      · exact fun hn => absurd hb (hn _)
      · refine fun hn => absurd (hs.far_mono ?_ hb) hn
        exact Nat.le_trans (offset_le_skipBlanks p.2) (Nat.le_succ _)
  | error ha => exact fun _ => ⟨_, rfl, ha⟩
  | @ok v c c' ht' =>
    rw [ok_bind, ok_bind]
    dsimp only
    cases hr : c.skipBlanks.rest with
    | nil =>
      intro hn
      rw [hs.next_end ht' (hn _) hr]
    | cons first rest =>
      intro hf
      have hn : ¬ far c.skipBlanks.offset := fun h => hf (hs.far_mono (Nat.le_succ _) h)
      obtain ⟨rest', hr'⟩ := hs.next ht' hn hr
      have ho := hs.offset (hs.skip ht' hn).1
      rw [hr', Span.single_eq_between]
      refine ⟨_, rfl, ?_⟩
      rw [Span.single_eq_between]
      exact .between (.trailingInput ho) ho (hs.level_succ ho)

end InStep

end InStep

end BlockTrace.Expression
