import BlockTrace.Proofs.Expression.Grammar
import BlockTrace.Proofs.Expression.Routines
import Mathlib

/-! Evaluation while reading is evaluation of the tree that the grammar gives. A text that the
grammar does not derive has no value. -/
namespace BlockTrace.Expression
open Text (Cursor)

/-- From `c` to `d` stands a phrase, and its tree has the value that was read. -/
def Spells (vars : Variables) (phrase : Phrase) (c : Cursor) (value : Int32) (d : Cursor) : Prop :=
  ∃ ts tree, Derives phrase ts tree ∧ tree.evaluate vars = .ok value ∧
    tokens c.rest = ts ++ tokens d.rest

/-- Whatever phrase of value `before` ends at `c`, it goes on to `d` as one of value `after`. -/
def Prolongs (vars : Variables) (phrase : Phrase) (before : Int32) (c : Cursor) (after : Int32)
    (d : Cursor) : Prop :=
  ∀ ts tree, Derives phrase ts tree → tree.evaluate vars = .ok before →
    ∃ us longer, Derives phrase (ts ++ us) longer ∧ longer.evaluate vars = .ok after ∧
      tokens c.rest = us ++ tokens d.rest

section Sound
variable {vars : Variables} {c d e : Cursor} {v w : Int32}

private theorem Spells.prolong {phrase : Phrase} (h : Spells vars phrase c v d)
    (hp : Prolongs vars phrase v d w e) : Spells vars phrase c w e := by
  obtain ⟨ts, tree, ht, hv, hc⟩ := h
  obtain ⟨us, longer, hl, hw, hd⟩ := hp ts tree ht hv
  exact ⟨ts ++ us, longer, hl, hw, by rw [hc, hd, List.append_assoc]⟩

private theorem prolongs_stop (phrase : Phrase) : Prolongs vars phrase v c v c.skipBlanks :=
  fun ts tree ht hv => ⟨[], tree, by rwa [List.append_nil], hv, by rw [tokens_skipBlanks]; rfl⟩

private theorem prolongs_sum {op : AddOp} {u : Int32} {f : Cursor}
    (ha : c.skipBlanks.accept? AddOp.ofChar? = some (op, d)) (ht : Spells vars .term d w e)
    (hs : Prolongs vars .expression (op.apply v w) e u f) :
    Prolongs vars .expression v c u f := by
  intro ts left hl hv
  obtain ⟨m, hm, hc⟩ := tokens_of_accept? AddOp.isMark_of_ofChar? ha
  obtain ⟨us, right, hr, hw, hd⟩ := ht
  have hsum : (Tree.sum op left right).evaluate vars = .ok (op.apply v w) := by
    rw [Tree.evaluate, hv, hw, AddOp.apply_eq_meaning]
    rfl
  obtain ⟨more, tree, htree, hu, he⟩ := hs _ _ (.sum op hl hr) hsum
  refine ⟨.mark op.symbol :: us ++ more, tree, by simpa using htree, hu, ?_⟩
  rw [hc, hd, he, AddOp.symbol_of_ofChar? hm]
  simp

private theorem prolongs_product {op : MulOp} {x u : Int32} {f : Cursor}
    (ha : c.skipBlanks.accept? MulOp.ofChar? = some (op, d)) (ht : Spells vars .factor d w e)
    (hx : op.apply v w = .ok x) (hs : Prolongs vars .term x e u f) :
    Prolongs vars .term v c u f := by
  intro ts left hl hv
  obtain ⟨m, hm, hc⟩ := tokens_of_accept? MulOp.isMark_of_ofChar? ha
  obtain ⟨us, right, hr, hw, hd⟩ := ht
  have hproduct : (Tree.product op left right).evaluate vars = .ok x := by
    rw [Tree.evaluate, hv, hw, ← hx, MulOp.apply_eq_meaning]
    rfl
  obtain ⟨more, tree, htree, hu, he⟩ := hs _ _ (.product op hl hr) hproduct
  refine ⟨.mark op.symbol :: us ++ more, tree, by simpa using htree, hu, ?_⟩
  rw [hc, hd, he, MulOp.symbol_of_ofChar? hm]
  simp

theorem Spells.term (h : Spells vars .factor c v d) : Spells vars .term c v d := by
  obtain ⟨ts, tree, ht, hv, hc⟩ := h
  exact ⟨ts, tree, .factor ht, hv, hc⟩

theorem Spells.expression (h : Spells vars .term c v d) :
    Spells vars .expression c v d := by
  obtain ⟨ts, tree, ht, hv, hc⟩ := h
  exact ⟨ts, tree, .term ht, hv, hc⟩

private theorem spells_group {rest : List Char} (hr : c.skipBlanks.rest = '(' :: rest)
    (h : Spells vars .expression ⟨rest, c.skipBlanks.offset + 1⟩ w e)
    (hg : closeGroup c.skipBlanks.offset (w, e) = .ok (v, d)) : Spells vars .factor c v d := by
  obtain ⟨ts, tree, ht, hw, hc⟩ := h
  obtain ⟨rfl, he, _⟩ := closeGroup_eq_ok_iff.1 hg
  refine ⟨_, tree, .group ht, hw, ?_⟩
  rw [tokens_of_mark hr (by decide), hc, tokens_of_mark he (by decide)]
  simp

private theorem spells_digit {first : Char} {rest : List Char}
    (hr : c.skipBlanks.rest = first :: rest) (hd : first.isDigit)
    (h : plain (factor vars c) = .ok (v, d)) : Spells vars .factor c v d := by
  rw [plain_factor_digit vars hr hd] at h
  obtain ⟨rfl, rfl⟩ := Prod.mk.injEq .. ▸ Except.ok.injEq .. ▸ h
  exact ⟨_, _, .literal _, by rw [literalValue_eq]; rfl, tokens_of_digit hr hd⟩

private theorem spells_name {first : Char} {rest : List Char}
    (hr : c.skipBlanks.rest = first :: rest) (hs : isNameStart first)
    (h : plain (factor vars c) = .ok (v, d)) : Spells vars .factor c v d := by
  rw [plain_factor_name vars hr hs] at h
  refine ⟨_, _, .name (c.skipBlanks.takeWhile isNameRest).1, ?_, ?_⟩
  · rw [Tree.evaluate]
    split at h <;> simp_all
  · split at h
    · obtain ⟨_, rfl⟩ := Prod.mk.injEq .. ▸ Except.ok.injEq .. ▸ h
      exact tokens_of_nameStart hr hs
    · cases h

/-- Every value that a routine reads is that of a phrase. -/
theorem spells_of_plain (vars : Variables) :
    (∀ c v d, plain (expression vars c) = .ok (v, d) → Spells vars .expression c v d) ∧
    (∀ w c v d, plain (sum vars w c) = .ok (v, d) → Prolongs vars .expression w c v d) ∧
    (∀ c v d, plain (term vars c) = .ok (v, d) → Spells vars .term c v d) ∧
    (∀ w c v d, plain (product vars w c) = .ok (v, d) → Prolongs vars .term w c v d) ∧
    (∀ c v d, plain (factor vars c) = .ok (v, d) → Spells vars .factor c v d) := by
  refine expression.mutual_induct _ _ _ _ _ ?expression ?sumStop ?sumGo ?term ?productStop
    ?productGo ?factorEnd ?factorGroup ?factorDigit ?factorName ?factorMark
  case expression =>
    intro c ihTerm ihSum v d h
    rw [plain_expression] at h
    obtain ⟨⟨w, e⟩, hw, hs⟩ := bind_eq_ok_iff.1 h
    obtain ⟨r, rfl, rfl⟩ := reading_of_plain hw
    exact (ihTerm _ _ hw).expression.prolong (ihSum r _ _ hs)
  case sumStop =>
    intro w c ha v d h
    rw [plain_sum_none vars w ha] at h
    obtain ⟨rfl, rfl⟩ := Prod.mk.injEq .. ▸ Except.ok.injEq .. ▸ h
    exact prolongs_stop .expression
  case sumGo =>
    intro w c op d ha _ ihTerm ihSum v f h
    rw [plain_sum_some vars w ha] at h
    obtain ⟨⟨x, e⟩, hx, hs⟩ := bind_eq_ok_iff.1 h
    obtain ⟨r, rfl, rfl⟩ := reading_of_plain hx
    exact prolongs_sum ha (ihTerm _ _ hx) (ihSum r _ _ hs)
  case term =>
    intro c ihFactor ihProduct v d h
    rw [plain_term] at h
    obtain ⟨⟨w, e⟩, hw, hs⟩ := bind_eq_ok_iff.1 h
    obtain ⟨r, rfl, rfl⟩ := reading_of_plain hw
    exact (ihFactor _ _ hw).term.prolong (ihProduct r _ _ hs)
  case productStop =>
    intro w c ha v d h
    rw [plain_product_none vars w ha] at h
    obtain ⟨rfl, rfl⟩ := Prod.mk.injEq .. ▸ Except.ok.injEq .. ▸ h
    exact prolongs_stop .term
  case productGo =>
    intro w c op d ha _ ihFactor ihProduct v f h
    rw [plain_product_some vars w ha] at h
    obtain ⟨⟨x, e⟩, hx, hs⟩ := bind_eq_ok_iff.1 h
    obtain ⟨r, rfl, rfl⟩ := reading_of_plain hx
    dsimp only at hs
    split at hs
    · cases hs
    next result hresult =>
      exact prolongs_product ha (ihFactor _ _ hx) hresult (ihProduct r result _ _ hs)
  case factorEnd =>
    intro c _ _ hr v d h
    rw [plain_factor_end vars hr] at h
    cases h
  case factorGroup =>
    intro c _ _ rest hr _ ihExpression v d h
    rw [plain_factor_group vars hr] at h
    obtain ⟨⟨w, e⟩, hw, hg⟩ := bind_eq_ok_iff.1 h
    exact spells_group hr (ihExpression _ _ hw) hg
  case factorDigit =>
    intro c _ _ first rest hr _ hd v d h
    exact spells_digit hr hd h
  case factorName =>
    intro c _ _ first rest hr _ _ hs v d h
    exact spells_name hr hs h
  case factorMark =>
    intro c _ _ first rest hr hp hd hs v d h
    have hm : isMark first := by simp [isMark, isBlank_head_skipBlanks hr, hd, hs]
    rw [plain_factor_mark vars hr hp hm] at h
    cases h

end Sound

/-- A routine that meets a phrase of value `r` in front of `us` goes on as `next` says, or it
fails for the cause that is the value. -/
def Follows (next : Int32 → Cursor → Except Fault (Int32 × Cursor)) (us : List Token)
    (r : Except Cause Int32) (x : Except Fault (Int32 × Cursor)) : Prop :=
  match r with
  | .ok v => ∃ d, x = next v d ∧ tokens d.rest = us
  | .error cause => ∃ fault, x = .error fault ∧ fault.cause = cause

/-- No token in front of `us` has a meaning for `f`. -/
def Free {α : Type} (f : Char → Option α) (us : List Token) : Prop :=
  ∀ m more, us = .mark m :: more → f m = none

/-- What the routine for a phrase does at `c` when the phrase stands there in front of `us`. -/
def Meets (vars : Variables) (tree : Tree) (c : Cursor) (us : List Token) : Phrase → Prop
  | .factor => Follows (fun v d => .ok (v, d)) us (tree.evaluate vars) (plain (factor vars c))
  | .term =>
    Follows (fun v d => plain (product vars v d)) us (tree.evaluate vars) (plain (term vars c))
  | .expression => Free MulOp.ofChar? us →
    Follows (fun v d => plain (sum vars v d)) us (tree.evaluate vars) (plain (expression vars c))

section Complete
variable {vars : Variables} {c d : Cursor} {us : List Token}

private theorem free_mark {α : Type} {f : Char → Option α} {m : Char} (h : f m = none) :
    Free f (.mark m :: us) := by
  intro m' more he
  simp only [List.cons.injEq, Token.mark.injEq] at he
  rw [← he.1, h]

private theorem plain_sum_free (v : Int32) (hd : tokens d.rest = us)
    (hu : Free AddOp.ofChar? us) : plain (sum vars v d) = .ok (v, d.skipBlanks) :=
  plain_sum_none vars v
    (accept?_eq_none_of_tokens AddOp.isMark_of_ofChar? fun m more h => hu m more (hd ▸ h))

private theorem plain_product_free (v : Int32) (hd : tokens d.rest = us)
    (hu : Free MulOp.ofChar? us) : plain (product vars v d) = .ok (v, d.skipBlanks) :=
  plain_product_none vars v
    (accept?_eq_none_of_tokens MulOp.isMark_of_ofChar? fun m more h => hu m more (hd ▸ h))

private theorem Follows.bind {next : Int32 → Cursor → Except Fault (Int32 × Cursor)}
    {r : Except Cause Int32} {x : Except Fault (Int32 × Cursor)} (h : Follows next us r x)
    (g : Int32 × Cursor → Except Fault (Int32 × Cursor)) :
    Follows (fun v d => next v d >>= g) us r (x >>= g) := by
  cases r with
  | error cause =>
    obtain ⟨fault, rfl, hc⟩ := h
    exact ⟨fault, rfl, hc⟩
  | ok v =>
    obtain ⟨d, rfl, hd⟩ := h
    exact ⟨d, rfl, hd⟩

private theorem Follows.trans {next more : Int32 → Cursor → Except Fault (Int32 × Cursor)}
    {ts : List Token} {r : Except Cause Int32} {k : Int32 → Except Cause Int32}
    {x : Except Fault (Int32 × Cursor)} (h : Follows next ts r x)
    (hk : ∀ v d, tokens d.rest = ts → Follows more us (k v) (next v d)) :
    Follows more us (r >>= k) x := by
  cases r with
  | error cause => exact h
  | ok v =>
    obtain ⟨d, rfl, hd⟩ := h
    exact hk v d hd

private theorem Follows.next {next more : Int32 → Cursor → Except Fault (Int32 × Cursor)}
    {ts : List Token} {r : Except Cause Int32} {x : Except Fault (Int32 × Cursor)}
    (h : Follows next ts r x)
    (hk : ∀ v d, tokens d.rest = ts → ∃ e, next v d = more v e ∧ tokens e.rest = us) :
    Follows more us r x := by
  cases r with
  | error cause => exact h
  | ok v =>
    obtain ⟨d, rfl, hd⟩ := h
    exact hk v d hd

private theorem meets_literal {digits : List Char} (h : tokens c.rest = .number digits :: us) :
    Meets vars (.literal digits) c us .factor := by
  obtain ⟨first, rest, hr, hd, rfl, ht⟩ := digit_of_tokens h
  refine ⟨_, ?_, ht⟩
  rw [plain_factor_digit vars hr hd, literalValue_eq]

private theorem meets_name {letters : List Char} (h : tokens c.rest = .name letters :: us) :
    Meets vars (.name letters) c us .factor := by
  obtain ⟨first, rest, hr, hs, rfl, ht⟩ := nameStart_of_tokens h
  rw [Meets, plain_factor_name vars hr hs, Tree.evaluate]
  cases vars[String.ofList (c.skipBlanks.takeWhile isNameRest).1]? with
  | none => exact ⟨_, rfl, rfl⟩
  | some value => exact ⟨_, rfl, ht⟩

private theorem meets_group {ts : List Token} {tree : Tree}
    (h : tokens c.rest = .mark '(' :: (ts ++ .mark ')' :: us))
    (ih : ∀ c us, tokens c.rest = ts ++ us → Meets vars tree c us .expression) :
    Meets vars tree c us .factor := by
  obtain ⟨rest, hr, _, ht⟩ := mark_of_tokens h
  have hi := ih ⟨rest, c.skipBlanks.offset + 1⟩ (.mark ')' :: us) ht (free_mark rfl)
  rw [Meets, plain_factor_group vars hr]
  refine (hi.bind _).next fun v d hd => ?_
  obtain ⟨more, hm, _, hu⟩ := mark_of_tokens ((tokens_skipBlanks d).trans hd)
  refine ⟨⟨more, d.skipBlanks.skipBlanks.offset + 1⟩, ?_, hu⟩
  rw [plain_sum_free v hd (free_mark rfl)]
  exact closeGroup_eq_ok_iff.2 ⟨rfl, hm, rfl⟩

private theorem meets_term {tree : Tree} (h : Meets vars tree c us .factor) :
    Meets vars tree c us .term := by
  change Follows _ us _ (plain (term vars c))
  rw [plain_term]
  exact (Follows.bind h _).next fun v d hd => ⟨d, rfl, hd⟩

private theorem meets_expression {tree : Tree} (h : Meets vars tree c us .term) :
    Meets vars tree c us .expression := by
  intro hu
  rw [plain_expression]
  refine (Follows.bind h _).next fun v d hd => ⟨d.skipBlanks, ?_, (tokens_skipBlanks d).trans hd⟩
  rw [plain_product_free v hd hu]
  rfl

private theorem meets_product {op : MulOp} {ts : List Token} {left right : Tree}
    (hl : Meets vars left c (.mark op.symbol :: ts) .term)
    (hr : ∀ d, tokens d.rest = ts → Meets vars right d us .factor) :
    Meets vars (.product op left right) c us .term := by
  refine Follows.trans hl fun v d hd => ?_
  obtain ⟨e, ha, he⟩ := accept?_of_tokens hd (MulOp.ofChar?_symbol op)
  rw [plain_product_some vars v ha]
  refine ((hr e he).bind _).trans fun w f hf => ?_
  rw [ok_bind]
  dsimp only
  rw [← MulOp.apply_eq_meaning]
  cases op.apply v w with
  | error cause => exact ⟨_, rfl, rfl⟩
  | ok x => exact ⟨f, rfl, hf⟩

private theorem meets_sum {op : AddOp} {ts : List Token} {left right : Tree}
    (hl : Meets vars left c (.mark op.symbol :: ts) .expression)
    (hr : ∀ d, tokens d.rest = ts → Meets vars right d us .term) :
    Meets vars (.sum op left right) c us .expression := by
  intro hu
  refine (hl (free_mark (by cases op <;> rfl))).trans fun v d hd => ?_
  obtain ⟨e, ha, he⟩ := accept?_of_tokens hd (AddOp.ofChar?_symbol op)
  rw [plain_sum_some vars v ha]
  refine (Follows.bind (hr e he) _).trans fun w f hf => ?_
  rw [plain_product_free w hf hu, ok_bind, AddOp.apply_eq_meaning]
  exact ⟨f.skipBlanks, rfl, (tokens_skipBlanks f).trans hf⟩

/-- The routines follow every derivation to its end, or up to the first thing that goes wrong in
the evaluation of its tree. -/
theorem meets_of_derives (vars : Variables) {phrase : Phrase} {ts : List Token} {tree : Tree}
    (h : Derives phrase ts tree) :
    ∀ c us, tokens c.rest = ts ++ us → Meets vars tree c us phrase := by
  induction h with
  | literal digits => exact fun c us hc => meets_literal hc
  | name letters => exact fun c us hc => meets_name hc
  | group _ ih => exact fun c us hc => meets_group (by simpa using hc) ih
  | factor _ ih => exact fun c us hc => meets_term (ih c us hc)
  | product op _ _ ihl ihr =>
    exact fun c us hc => meets_product (ihl c _ (by simpa using hc)) fun d hd => ihr d us hd
  | term _ ih => exact fun c us hc => meets_expression (ih c us hc)
  | sum op _ _ ihl ihr =>
    exact fun c us hc => meets_sum (ihl c _ (by simpa using hc)) fun d hd => ihr d us hd

end Complete

section Whole
variable (vars : Variables) (text : List Char)

theorem derives_of_evaluate {v : Int32} (h : evaluate vars text = .ok v) :
    ∃ tree, Derives .expression (tokens text) tree ∧ tree.evaluate vars = .ok v := by
  rw [evaluate_eq_plain] at h
  obtain ⟨⟨w, d⟩, hp, he⟩ := bind_eq_ok_iff.1 h
  dsimp only at he
  split at he
  next hr =>
    obtain ⟨rfl⟩ := Except.ok.injEq .. ▸ he
    obtain ⟨ts, tree, ht, hv, hc⟩ := (spells_of_plain vars).1 _ _ _ hp
    rw [tokens_of_end hr, List.append_nil] at hc
    exact ⟨tree, hc ▸ ht, hv⟩
  · cases he

theorem evaluate_of_derives {tree : Tree} (h : Derives .expression (tokens text) tree) :
    (evaluate vars text).mapError Fault.cause = tree.evaluate vars := by
  have hm := meets_of_derives vars h (Cursor.start text) [] (List.append_nil _).symm
    (fun m more he => by cases he)
  rw [evaluate_eq_plain]
  cases he : tree.evaluate vars with
  | error cause =>
    rw [he] at hm
    obtain ⟨fault, hx, hc⟩ := hm
    rw [hx]
    exact congrArg Except.error hc
  | ok v =>
    rw [he] at hm
    obtain ⟨d, hx, hd⟩ := hm
    have hp : plain (expression vars (Cursor.start text)) = .ok (v, d.skipBlanks) :=
      hx.trans (plain_sum_free v hd fun m more h => by cases h)
    rw [hp, ok_bind]
    dsimp only
    rw [end_of_tokens ((tokens_skipBlanks d).trans hd)]
    rfl

/-- A text that the grammar derives has the value of its tree, or fails for the tree's cause; a
text that the grammar does not derive has no value. -/
theorem evaluate_follows_grammar :
    (∀ tree, Derives .expression (tokens text) tree →
      (evaluate vars text).mapError Fault.cause = tree.evaluate vars) ∧
    ((¬ ∃ tree, Derives .expression (tokens text) tree) → ∀ v, evaluate vars text ≠ .ok v) := by
  refine ⟨fun tree h => evaluate_of_derives vars text h, fun hn v h => hn ?_⟩
  obtain ⟨tree, ht, _⟩ := derives_of_evaluate vars text h
  exact ⟨tree, ht⟩

/-- A sum that wraps, less a quotient whose divisor is a group. -/
theorem evaluate_wraps_and_groups :
    Derives .expression (tokens "2147483647 + 1 - 8 / (x - 3)".toList)
      (.sum .minus (.sum .plus (.literal "2147483647".toList) (.literal ['1']))
        (.product .divide (.literal ['8']) (.sum .minus (.name ['x']) (.literal ['3'])))) ∧
    (evaluate ((∅ : Variables).insert "x" 5)
      "2147483647 + 1 - 8 / (x - 3)".toList).mapError Fault.cause = .ok 2147483644 := by
  have ht : tokens "2147483647 + 1 - 8 / (x - 3)".toList =
      [.number "2147483647".toList, .mark '+', .number ['1'], .mark '-', .number ['8'], .mark '/',
        .mark '(', .name ['x'], .mark '-', .number ['3'], .mark ')'] := by
    cbv
  have hd : Derives .expression (tokens "2147483647 + 1 - 8 / (x - 3)".toList)
      (.sum .minus (.sum .plus (.literal "2147483647".toList) (.literal ['1']))
        (.product .divide (.literal ['8']) (.sum .minus (.name ['x']) (.literal ['3'])))) := by
    have hs := Derives.sum .minus
      (.sum .plus (.term (.factor (.literal "2147483647".toList))) (.factor (.literal ['1'])))
      (.product .divide (.factor (.literal ['8']))
        (.group (.sum .minus (.term (.factor (.name ['x']))) (.factor (.literal ['3'])))))
    rw [ht]
    exact hs
  refine ⟨hd, ?_⟩
  rw [(evaluate_follows_grammar _ _).1 _ hd]
  have hx : ((∅ : Variables).insert "x" 5)[String.ofList ['x']]? = some 5 := by
    rw [show String.ofList ['x'] = "x" from rfl, Std.ExtTreeMap.getElem?_insert_self]
  simp only [Tree.evaluate, hx]
  decide

end Whole

end BlockTrace.Expression
