import BlockTrace.Proofs.Expression.Places
import Mathlib

/-! A reader that takes one character at a time and makes no calls. What the routines around its
place still have to do is kept beside it. It goes from place to place as the routines do, and stops
with what they give. -/
namespace BlockTrace.Text

def Cursor.nextIf? (p : Char → Bool) (c : Cursor) : Option (Char × Cursor) :=
  c.accept? (Option.guard p)

section NextIf
variable {p : Char → Bool} {c : Cursor} {first : Char} {rest : List Char}

private theorem Cursor.nextIf?_of_pos (hc : c.rest = first :: rest) (hp : p first) :
    c.nextIf? p = some (first, ⟨rest, c.offset + 1⟩) := by
  simp [nextIf?, accept?, next?, hc, Option.guard, hp]

private theorem Cursor.nextIf?_of_neg (h : ∀ first ∈ c.rest.head?, ¬ p first) :
    c.nextIf? p = none := by
  cases hc : c.rest with
  | nil => simp [nextIf?, accept?, next?, hc]
  | cons first rest =>
    have hp : ¬ p first := h first (by simp [hc])
    simp [nextIf?, accept?, next?, hc, Option.guard, hp]

/-- Nothing of a class is left where a run of it was read. -/
theorem Cursor.nextIf?_takeWhile (p : Char → Bool) (c : Cursor) :
    (c.takeWhile p).2.nextIf? p = none := by
  apply nextIf?_of_neg
  intro first hf
  have hd := List.head?_dropWhile_not p c.rest
  rw [show (c.rest.dropWhile p).head? = some first from hf] at hd
  simpa using hd

end NextIf

end BlockTrace.Text

namespace BlockTrace.Expression
open Text (Cursor Span isBlank)

/-- What is still to be done when the phrase that is being read has a value. -/
inductive Pending : Phrase → Type
  | whole : Pending .expression
  | group (start : Nat) (k : Pending .factor) : Pending .expression
  | firstTerm (k : Pending .expression) : Pending .term
  | addend (op : AddOp) (left : Int32) (k : Pending .expression) : Pending .term
  | firstFactor (k : Pending .term) : Pending .factor
  | operand (op : MulOp) (left : Int32) (start : Nat) (k : Pending .term) : Pending .factor

/-- What the reader is at, where it stands, and what is still to be done after that. -/
inductive Reader
  -- In front of a phrase.
  | due (phrase : Phrase) (c : Cursor) (k : Pending phrase)
  -- In front of an operand that must not be zero, if the operator divides.
  | operand (op : MulOp) (left : Int32) (c : Cursor) (k : Pending .term)
  | number (digits : List Char) (c : Cursor) (k : Pending .factor)
  | name (start : Nat) (letters : List Char) (c : Cursor) (k : Pending .factor)
  | product (value : Int32) (c : Cursor) (k : Pending .term)
  | sum (value : Int32) (c : Cursor) (k : Pending .expression)
  -- Behind the expression of a group.
  | closing (start : Nat) (value : Int32) (c : Cursor) (k : Pending .factor)
  -- Behind the expression that is the whole text.
  | ending (value : Int32) (c : Cursor)
  | stopped (result : Except Fault Int32) (c : Cursor)

/-- Goes on with the value of the phrase, which ends at `c`. -/
def Pending.give : {phrase : Phrase} → Pending phrase → Int32 → Cursor → Reader
  | _, whole, value, c => .ending value c
  | _, group start k, value, c => .closing start value c k
  | _, firstTerm k, value, c => .sum value c k
  | _, addend op left k, value, c => .sum (op.apply left value) c k
  | _, firstFactor k, value, c => .product value c k
  | _, operand op left start k, value, c =>
    match op.apply left value with
    | .ok result => .product result c k
    | .error cause => .stopped (.error ⟨cause, Span.between start c.offset⟩) c

namespace Reader

def start (text : List Char) : Reader :=
  due .expression (Cursor.start text) .whole

def cursor : Reader → Cursor
  | due _ c _ | operand _ _ c _ | number _ c _ | name _ _ c _ | product _ c _ | sum _ c _
  | closing _ _ c _ | ending _ c | stopped _ c => c

/-- Reads one more character of a class, as long as there is one. -/
def onward (p : Char → Bool) (c : Cursor) (more : Char → Cursor → Reader) (past : Reader) :
    Reader :=
  match c.nextIf? p with
  | some (first, d) => more first d
  | none => past

/-- At the first character of a factor. -/
def operandAt (c : Cursor) (k : Pending .factor) : Reader :=
  match c.next? with
  | none => stopped (.error ⟨.unexpectedEnd, ⟨c.offset, 0⟩⟩) c
  | some (first, d) =>
    if first = '(' then due .expression d (.group c.offset k)
    else if first.isDigit then number [] c k
    else if isNameStart first then name c.offset [] c k
    else stopped (.error ⟨.unexpectedCharacter first c.offset, Span.single c.offset⟩) c

/-- At the character that has to close a group. -/
def closeAt (start : Nat) (value : Int32) (c : Cursor) (k : Pending .factor) : Reader :=
  match c.next? with
  | none => stopped (.error ⟨.unclosedGroup, Span.between start c.offset⟩) c
  | some (mark, d) =>
    if mark = ')' then k.give value d
    else stopped (.error ⟨.unclosedGroup, Span.between start d.offset⟩) d

/-- One step. Only a reader that has stopped takes none. -/
def step (vars : Variables) : Reader → Option Reader
  | due .expression c k => some (due .term c (.firstTerm k))
  | due .term c k => some (due .factor c (.firstFactor k))
  | due .factor c k => some <| onward isBlank c (fun _ d => due .factor d k) (operandAt c k)
  | operand op left c k => some <| onward isBlank c (fun _ d => operand op left d k)
      (due .factor c (.operand op left c.offset k))
  | number digits c k => some <|
      onward Char.isDigit c (fun first d => number (digits ++ [first]) d k)
        (k.give (literalValue digits) c)
  | name start letters c k => some <|
      onward isNameRest c (fun first d => name start (letters ++ [first]) d k) <|
        match vars[String.ofList letters]? with
        | some value => k.give value c
        | none => stopped (.error ⟨.unknownVariable (String.ofList letters),
            Span.between start c.offset⟩) c
  | product value c k => some <| onward isBlank c (fun _ d => product value d k) <|
      match c.accept? MulOp.ofChar? with
      | some (op, d) => operand op value d k
      | none => k.give value c
  | sum value c k => some <| onward isBlank c (fun _ d => sum value d k) <|
      match c.accept? AddOp.ofChar? with
      | some (op, d) => due .term d (.addend op value k)
      | none => k.give value c
  | closing start value c k => some <|
      onward isBlank c (fun _ d => closing start value d k) (closeAt start value c k)
  | ending value c => some <| onward isBlank c (fun _ d => ending value d) <|
      match c.rest with
      | [] => stopped (.ok value) c
      | _ :: _ => stopped (.error ⟨.trailingInput c.offset, Span.single c.offset⟩) c
  | stopped _ _ => none

def run (vars : Variables) : Nat → Reader → Option Reader
  | 0, r => some r
  | n + 1, r => (r.step vars).bind (run vars n)

def Reaches (vars : Variables) (r s : Reader) : Prop :=
  ∃ n, run vars n r = some s

section Reaches
variable {vars : Variables} {r s t : Reader} {p : Char → Bool} {c : Cursor}

theorem run_add (vars : Variables) (m n : Nat) (r : Reader) :
    run vars (m + n) r = (run vars m r).bind (run vars n) := by
  induction m generalizing r with
  | zero => rw [Nat.zero_add, run, Option.bind_some]
  | succ m ih =>
    rw [Nat.add_right_comm, run, run]
    cases r.step vars with
    | none => rfl
    | some s => exact ih s

theorem Reaches.refl (r : Reader) : Reaches vars r r :=
  ⟨0, rfl⟩

theorem Reaches.trans (h : Reaches vars r s) (h' : Reaches vars s t) : Reaches vars r t := by
  obtain ⟨m, hm⟩ := h
  obtain ⟨n, hn⟩ := h'
  exact ⟨m + n, by rw [run_add, hm, Option.bind_some, hn]⟩

theorem Reaches.of_step (h : r.step vars = some s) : Reaches vars r s :=
  ⟨1, by rw [run, h, Option.bind_some, run]⟩

theorem onward_of_none (h : c.nextIf? p = none) (more : Char → Cursor → Reader) (past : Reader) :
    onward p c more past = past := by
  rw [onward, h]

theorem onward_of_some {first : Char} {d : Cursor} (h : c.nextIf? p = some (first, d))
    (more : Char → Cursor → Reader) (past : Reader) : onward p c more past = more first d := by
  rw [onward, h]

/-- A reader that goes on with a class of characters reads the whole run of them. -/
theorem reaches_takeWhile (vars : Variables) (p : Char → Bool) (state : List Char → Cursor → Reader)
    (h : ∀ read c first d, c.nextIf? p = some (first, d) →
      (state read c).step vars = some (state (read ++ [first]) d)) (read : List Char) (c : Cursor) :
    Reaches vars (state read c) (state (read ++ (c.takeWhile p).1) (c.takeWhile p).2) := by
  obtain ⟨rest, offset⟩ := c
  induction rest generalizing read offset with
  | nil =>
    rw [Cursor.takeWhile, List.takeWhile_nil, List.append_nil]
    exact .refl _
  | cons first rest ih =>
    by_cases hp : p first
    · have hs := h read ⟨first :: rest, offset⟩ first ⟨rest, offset + 1⟩
        (Text.Cursor.nextIf?_of_pos rfl hp)
      refine (Reaches.of_step hs).trans ?_
      simpa [Cursor.takeWhile, hp, Nat.add_assoc, Nat.add_comm 1] using
        ih (read ++ [first]) (offset + 1)
    · simp only [Cursor.takeWhile, List.takeWhile_cons_of_neg hp, List.dropWhile_cons_of_neg hp,
        List.append_nil, List.length_nil, Nat.add_zero]
      exact .refl _

/-- A reader that passes over blanks comes to the first character after them. -/
theorem reaches_skipBlanks (state : Cursor → Reader) {past : Cursor → Reader}
    (h : ∀ c, (state c).step vars = some (onward isBlank c (fun _ d => state d) (past c)))
    (c : Cursor) : Reaches vars (state c) (past c.skipBlanks) := by
  have hr := reaches_takeWhile vars isBlank (fun _ => state)
    (fun _ c first d hn => (h c).trans (congrArg some (onward_of_some hn _ _))) [] c
  refine hr.trans (.of_step ?_)
  rw [h, onward_of_none (Cursor.nextIf?_takeWhile isBlank c)]
  rfl

end Reaches

end Reader

open Reader (Reaches)

def Phrase.routine (vars : Variables) : Phrase → Cursor → Except Fault (Int32 × Cursor)
  | .expression, c => plain (Expression.expression vars c)
  | .term, c => plain (Expression.term vars c)
  | .factor, c => plain (Expression.factor vars c)

/-- From `r` the reader comes to where a routine ends, or it stops at the fault of the routine. -/
def Arrives (vars : Variables) (r : Reader) (next : Int32 → Cursor → Reader) :
    Except Fault (Int32 × Cursor) → Prop :=
  Gives (fun p => Reaches vars r (next p.1 p.2))
    fun fault => ∃ d, Reaches vars r (.stopped (.error fault) d)

section Arrives
variable {vars : Variables} {r s : Reader} {next next' : Int32 → Cursor → Reader}
  {x : Except Fault (Int32 × Cursor)} {c d : Cursor}

theorem Arrives.of_reaches (h : Reaches vars r s) (ha : Arrives vars s next x) :
    Arrives vars r next x := by
  cases x with
  | error fault =>
    obtain ⟨d, hd⟩ := ha
    exact ⟨d, h.trans hd⟩
  | ok p => exact h.trans ha

theorem Arrives.bind {n : Nat} {x : Except Fault (Reading n)}
    {f : Int32 × Cursor → Except Fault (Int32 × Cursor)} (hx : Arrives vars r next (plain x))
    (hf : ∀ t : Reading n, Arrives vars (next t.value t.next) next' (f (t.value, t.next))) :
    Arrives vars r next' (plain x >>= f) :=
  gives_bind_plain hx fun t ht => (hf t).of_reaches ht

/-- Behind the blanks that stand in front of it, a factor is found as the routine finds it. -/
theorem reaches_factor (vars : Variables) (c : Cursor) (k : Pending .factor) :
    Reaches vars (.due .factor c k) (Reader.operandAt c.skipBlanks k) :=
  Reader.reaches_skipBlanks (fun c => .due .factor c k) (fun _ => rfl) c

private theorem reaches_operand (vars : Variables) (op : MulOp) (left : Int32) (c : Cursor)
    (k : Pending .term) :
    Reaches vars (.operand op left c k)
      (.due .factor c.skipBlanks (.operand op left c.skipBlanks.offset k)) :=
  Reader.reaches_skipBlanks (fun c => .operand op left c k) (fun _ => rfl) c

theorem reaches_sum (vars : Variables) (value : Int32) (c : Cursor) (k : Pending .expression) :
    Reaches vars (.sum value c k)
      (match c.skipBlanks.accept? AddOp.ofChar? with
      | some (op, d) => .due .term d (.addend op value k)
      | none => k.give value c.skipBlanks) :=
  Reader.reaches_skipBlanks (fun c => .sum value c k) (fun _ => rfl) c

theorem reaches_product (vars : Variables) (value : Int32) (c : Cursor) (k : Pending .term) :
    Reaches vars (.product value c k)
      (match c.skipBlanks.accept? MulOp.ofChar? with
      | some (op, d) => .operand op value d k
      | none => k.give value c.skipBlanks) :=
  Reader.reaches_skipBlanks (fun c => .product value c k) (fun _ => rfl) c

private theorem arrives_closing (vars : Variables) (start : Nat) (value : Int32) (c : Cursor)
    (k : Pending .factor) :
    Arrives vars (.closing start value c k) k.give (closeGroup start (value, c)) := by
  have hr : Reaches vars (.closing start value c k) (Reader.closeAt start value c.skipBlanks k) :=
    Reader.reaches_skipBlanks (fun c => .closing start value c k) (fun _ => rfl) c
  unfold Reader.closeAt at hr
  unfold closeGroup
  dsimp only
  cases hn : c.skipBlanks.next? with
  | none =>
    rw [hn] at hr
    exact ⟨_, hr⟩
  | some found =>
    obtain ⟨mark, after⟩ := found
    simp only [hn] at hr ⊢
    by_cases hm : mark = ')'
    · rw [if_pos hm] at hr ⊢
      exact hr
    · rw [if_neg hm] at hr ⊢
      exact ⟨_, hr⟩

private theorem arrives_ending (vars : Variables) (value : Int32) (c : Cursor) :
    ∃ d, Reaches vars (.ending value c) (.stopped (match c.skipBlanks.rest with
      | [] => .ok value
      | _ :: _ => .error ⟨.trailingInput c.skipBlanks.offset,
          Span.single c.skipBlanks.offset⟩) d) := by
  have hr : Reaches vars (.ending value c) _ :=
    Reader.reaches_skipBlanks (.ending value) (fun _ => rfl) c
  cases hc : c.skipBlanks.rest with
  | nil =>
    simp only [hc] at hr
    exact ⟨_, hr⟩
  | cons first rest =>
    simp only [hc] at hr
    exact ⟨_, hr⟩

section Operands
variable {first : Char} {rest : List Char} {k : Pending .factor}

private theorem operandAt_of_nil (h : c.rest = []) (k : Pending .factor) :
    Reader.operandAt c k = .stopped (.error ⟨.unexpectedEnd, ⟨c.offset, 0⟩⟩) c := by
  simp only [Reader.operandAt, Cursor.next?, h]

theorem operandAt_of_cons (h : c.rest = first :: rest) (k : Pending .factor) :
    Reader.operandAt c k =
      if first = '(' then .due .expression ⟨rest, c.offset + 1⟩ (.group c.offset k)
      else if first.isDigit then .number [] c k
      else if isNameStart first then .name c.offset [] c k
      else .stopped (.error ⟨.unexpectedCharacter first c.offset, Span.single c.offset⟩) c := by
  simp only [Reader.operandAt, Cursor.next?, h]

/-- The digits that the reader collects are those of the run. -/
theorem arrives_number (h : c.skipBlanks.rest = first :: rest) (hd : first.isDigit)
    (hp : first ≠ '(') :
    Arrives vars (Reader.operandAt c.skipBlanks k) k.give (plain (factor vars c)) := by
  rw [operandAt_of_cons h, if_neg hp, if_pos hd, plain_factor_digit vars h hd]
  have hr := Reader.reaches_takeWhile vars Char.isDigit (fun read c => .number read c k)
    (fun read c first d hn => congrArg some (Reader.onward_of_some hn _ _)) [] c.skipBlanks
  refine hr.trans (.of_step ?_)
  exact congrArg some (Reader.onward_of_none (Cursor.nextIf?_takeWhile _ _) _ _)

private theorem arrives_name (h : c.skipBlanks.rest = first :: rest) (hs : isNameStart first)
    (hp : first ≠ '(') (hd : ¬ first.isDigit) :
    Arrives vars (Reader.operandAt c.skipBlanks k) k.give (plain (factor vars c)) := by
  rw [operandAt_of_cons h, if_neg hp, if_neg hd, if_pos hs, plain_factor_name vars h hs]
  have hr := Reader.reaches_takeWhile vars isNameRest
    (fun read d => .name c.skipBlanks.offset read d k)
    (fun read c first d hn => congrArg some (Reader.onward_of_some hn _ _)) [] c.skipBlanks
  have hn := hr.trans (.of_step
    (congrArg some (Reader.onward_of_none (Cursor.nextIf?_takeWhile isNameRest c.skipBlanks) _ _)))
  rw [List.nil_append] at hn
  cases hv : vars[String.ofList (c.skipBlanks.takeWhile isNameRest).1]? with
  | none =>
    simp only [hv] at hn
    exact ⟨_, hn⟩
  | some value =>
    simp only [hv] at hn
    exact hn

end Operands

end Arrives

/-- The reader follows every routine. A factor is met behind the blanks in front of it. -/
theorem arrives_of_plain (vars : Variables) :
    (∀ c k, Arrives vars (.due .expression c k) k.give (plain (expression vars c))) ∧
    (∀ w c k, Arrives vars (.sum w c k) k.give (plain (sum vars w c))) ∧
    (∀ c k, Arrives vars (.due .term c k) k.give (plain (term vars c))) ∧
    (∀ w c k, Arrives vars (.product w c k) k.give (plain (product vars w c))) ∧
    (∀ c k, Arrives vars (Reader.operandAt c.skipBlanks k) k.give (plain (factor vars c))) := by
  refine expression.mutual_induct _ _ _ _ _ ?expression ?sumStop ?sumGo ?term ?productStop
    ?productGo ?factorEnd ?factorGroup ?factorDigit ?factorName ?factorMark
  case expression =>
    intro c ihTerm ihSum k
    rw [plain_expression]
    exact .of_reaches (.of_step rfl) ((ihTerm (.firstTerm k)).bind fun t => ihSum t k)
  case sumStop =>
    intro w c ha k
    have hr := reaches_sum vars w c k
    rw [plain_sum_none vars w ha]
    rw [ha] at hr
    exact hr
  case sumGo =>
    intro w c op d ha _ ihTerm ihSum k
    have hr := reaches_sum vars w c k
    rw [plain_sum_some vars w ha]
    rw [ha] at hr
    exact .of_reaches hr ((ihTerm (.addend op w k)).bind fun t => ihSum t k)
  case term =>
    intro c ihFactor ihProduct k
    have hr : Reaches vars (.due .term c k) (Reader.operandAt c.skipBlanks (.firstFactor k)) :=
      (Reaches.of_step rfl).trans (reaches_factor vars c _)
    rw [plain_term]
    exact .of_reaches hr ((ihFactor (.firstFactor k)).bind fun t => ihProduct t k)
  case productStop =>
    intro w c ha k
    have hr := reaches_product vars w c k
    rw [plain_product_none vars w ha]
    rw [ha] at hr
    exact hr
  case productGo =>
    intro w c op d ha _ ihFactor ihProduct k
    have hr := reaches_product vars w c k
    rw [ha] at hr
    -- The blanks are passed before the factor is begun, since a division by zero is reported from
    -- where the factor starts.
    have hf := reaches_factor vars d.skipBlanks (.operand op w d.skipBlanks.offset k)
    rw [skipBlanks_skipBlanks] at hf
    rw [plain_product_some vars w ha]
    refine .of_reaches ((hr.trans (reaches_operand vars op w d k)).trans hf) ?_
    refine (ihFactor _).bind fun t => ?_
    rw [Pending.give]
    dsimp only
    cases op.apply w t.value with
    | error cause => exact ⟨_, .refl _⟩
    | ok result => exact ihProduct t result k
  case factorEnd =>
    intro c _ _ hr k
    rw [plain_factor_end vars hr, operandAt_of_nil hr]
    exact ⟨_, .refl _⟩
  case factorGroup =>
    intro c _ _ rest hr _ ihExpression k
    rw [plain_factor_group vars hr, operandAt_of_cons hr, if_pos rfl]
    exact (ihExpression (.group c.skipBlanks.offset k)).bind fun t => arrives_closing vars _ _ _ k
  case factorDigit =>
    intro c _ _ first rest hr hp hd k
    exact arrives_number hr hd hp
  case factorName =>
    intro c _ _ first rest hr hp hd hs k
    exact arrives_name hr hs hp hd
  case factorMark =>
    intro c _ _ first rest hr hp hd hs k
    have hm : isMark first := by simp [isMark, isBlank_head_skipBlanks hr, hd, hs]
    rw [plain_factor_mark vars hr hp hm, operandAt_of_cons hr, if_neg hp, if_neg hd, if_neg hs]
    exact ⟨_, .refl _⟩

theorem arrives_due (vars : Variables) {phrase : Phrase} (c : Cursor) (k : Pending phrase) :
    Arrives vars (.due phrase c k) k.give (phrase.routine vars c) := by
  obtain ⟨hexpression, -, hterm, -, hfactor⟩ := arrives_of_plain vars
  cases phrase with
  | expression => exact hexpression c k
  | term => exact hterm c k
  | factor => exact .of_reaches (reaches_factor vars c k) (hfactor c k)

/-- The reader stops with the value of the text, or with its fault. -/
theorem reaches_evaluate (vars : Variables) (text : List Char) :
    ∃ d, Reaches vars (.start text) (.stopped (evaluate vars text) d) := by
  have ha := arrives_due vars (Cursor.start text) .whole
  rw [evaluate_eq_plain]
  change Arrives vars (.start text) _ (plain (expression vars (Cursor.start text))) at ha
  cases hx : plain (expression vars (Cursor.start text)) with
  | error fault =>
    rw [hx] at ha
    exact ha
  | ok p =>
    rw [hx] at ha
    obtain ⟨d, hd⟩ := arrives_ending vars p.1 p.2
    exact ⟨d, Reaches.trans ha hd⟩

end BlockTrace.Expression
