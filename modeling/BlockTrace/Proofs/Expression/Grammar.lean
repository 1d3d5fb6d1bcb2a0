import BlockTrace.Proofs.Expression.Tokens
import Mathlib.Data.List.Induction
import Mathlib.Data.Nat.Digits.Defs

/-! The grammar of expressions over their tokens, with the tree of every derivation, and the value
of a tree. Trees are evaluated from left to right; every operation is done on exact integers and
its result is then wrapped to 32 bits. -/
namespace BlockTrace.Expression

inductive Tree
  | literal (digits : List Char)
  | name (letters : List Char)
  | sum (op : AddOp) (left right : Tree)
  | product (op : MulOp) (left right : Tree)
  deriving DecidableEq, Repr

def AddOp.symbol : AddOp → Char
  | plus => '+'
  | minus => '-'

def MulOp.symbol : MulOp → Char
  | times => '*'
  | divide => '/'
  | modulo => '%'

inductive Phrase
  | expression
  | term
  | factor
  deriving DecidableEq, Repr

/-- A row of `term`s or of `factor`s is derived by its last member, so that it groups to the left. -/
inductive Derives : Phrase → List Token → Tree → Prop
  | literal (digits : List Char) : Derives .factor [.number digits] (.literal digits)
  | name (letters : List Char) : Derives .factor [.name letters] (.name letters)
  | group {ts : List Token} {t : Tree} :
    Derives .expression ts t → Derives .factor (.mark '(' :: (ts ++ [.mark ')'])) t
  | factor {ts : List Token} {t : Tree} : Derives .factor ts t → Derives .term ts t
  | product (op : MulOp) {ts us : List Token} {left right : Tree} :
    Derives .term ts left → Derives .factor us right →
      Derives .term (ts ++ .mark op.symbol :: us) (.product op left right)
  | term {ts : List Token} {t : Tree} : Derives .term ts t → Derives .expression ts t
  | sum (op : AddOp) {ts us : List Token} {left right : Tree} :
    Derives .expression ts left → Derives .term us right →
      Derives .expression (ts ++ .mark op.symbol :: us) (.sum op left right)

/-- The number that a row of decimal digits stands for. -/
def decimal (digits : List Char) : Nat :=
  Nat.ofDigits 10 (digits.map Text.digitValue).reverse

def AddOp.meaning : AddOp → Int32 → Int32 → Int32
  | plus, a, b => .ofInt (a.toInt + b.toInt)
  | minus, a, b => .ofInt (a.toInt - b.toInt)

/-- The quotient goes toward zero, and the remainder is what that leaves. -/
def MulOp.meaning : MulOp → Int32 → Int32 → Except Cause Int32
  | times, a, b => .ok (.ofInt (a.toInt * b.toInt))
  | divide, a, b =>
    if b.toInt = 0 then .error .divisionByZero else .ok (.ofInt (a.toInt.tdiv b.toInt))
  | modulo, a, b =>
    if b.toInt = 0 then .error .moduloByZero else .ok (.ofInt (a.toInt.tmod b.toInt))

/-- The value of a tree, or what goes wrong first. -/
def Tree.evaluate (vars : Variables) : Tree → Except Cause Int32
  | literal digits => .ok (.ofInt (decimal digits))
  | name letters =>
    match vars[String.ofList letters]? with
    | some value => .ok value
    | none => .error (.unknownVariable (String.ofList letters))
  | sum op left right => do
    let a ← left.evaluate vars
    let b ← right.evaluate vars
    return op.meaning a b
  | product op left right => do
    let a ← left.evaluate vars
    let b ← right.evaluate vars
    op.meaning a b

section Symbols

theorem AddOp.ofChar?_symbol (op : AddOp) : AddOp.ofChar? op.symbol = some op := by
  cases op <;> rfl

theorem MulOp.ofChar?_symbol (op : MulOp) : MulOp.ofChar? op.symbol = some op := by
  cases op <;> rfl

theorem AddOp.symbol_of_ofChar? {c : Char} {op : AddOp} (h : AddOp.ofChar? c = some op) :
    c = op.symbol := by
  unfold AddOp.ofChar? at h
  split at h <;> cases h <;> rfl

theorem MulOp.symbol_of_ofChar? {c : Char} {op : MulOp} (h : MulOp.ofChar? c = some op) :
    c = op.symbol := by
  unfold MulOp.ofChar? at h
  split at h <;> cases h <;> rfl

theorem AddOp.isMark_of_ofChar? (c : Char) (op : AddOp) (h : AddOp.ofChar? c = some op) :
    isMark c := by
  rw [AddOp.symbol_of_ofChar? h]
  cases op <;> decide

theorem MulOp.isMark_of_ofChar? (c : Char) (op : MulOp) (h : MulOp.ofChar? c = some op) :
    isMark c := by
  rw [MulOp.symbol_of_ofChar? h]
  cases op <;> decide

end Symbols

section Arithmetic

/-- One more digit at the end. -/
theorem decimal_append_singleton (digits : List Char) (c : Char) :
    decimal (digits ++ [c]) = decimal digits * 10 + Text.digitValue c := by
  simp only [decimal, List.map_append, List.map_cons, List.map_nil, List.reverse_append,
    List.reverse_singleton, List.singleton_append, Nat.ofDigits_cons]
  omega

/-- Wrapping at every digit is wrapping once at the end. -/
theorem literalValue_eq (digits : List Char) :
    literalValue digits = .ofInt (decimal digits) := by
  rw [Int32.ofInt_eq_ofNat]
  induction digits using List.reverseRecOn with
  | nil => rfl
  | append_singleton digits c ih =>
    have hl : literalValue (digits ++ [c]) =
        literalValue digits * 10 + Int32.ofNat (Text.digitValue c) := by
      simp [literalValue]
    rw [hl, decimal_append_singleton, ih, Int32.ofNat_add, Int32.ofNat_mul]
    rfl

theorem AddOp.apply_eq_meaning (op : AddOp) (a b : Int32) : op.apply a b = op.meaning a b := by
  cases op with
  | plus => simp [AddOp.apply, AddOp.meaning, Int32.ofInt_add]
  | minus => simp [AddOp.apply, AddOp.meaning, Int32.ofInt_sub]

theorem MulOp.apply_eq_meaning (op : MulOp) (a b : Int32) : op.apply a b = op.meaning a b := by
  have hz : b = 0 ↔ b.toInt = 0 := by rw [← Int32.toInt_inj]; rfl
  cases op with
  | times => simp [MulOp.apply, MulOp.meaning, Int32.ofInt_mul]
  | divide =>
    have hq : a / b = .ofInt (a.toInt.tdiv b.toInt) := by
      rw [← Int32.toInt_inj]
      simp
    simp only [MulOp.apply, MulOp.meaning, hz, hq]
  | modulo =>
    have hr : a % b = .ofInt (a.toInt.tmod b.toInt) := by
      rw [← Int32.ofInt_toInt (a % b), Int32.toInt_mod]
    simp only [MulOp.apply, MulOp.meaning, hz, hr]

end Arithmetic

end BlockTrace.Expression
