import BlockTrace.Proofs.Expression.Grammar
import Mathlib

/-! A scan of tokens from left to right that knows no more than whether an operand or an operator
is due and how many groups are open. It goes through to the end, with no group left open, exactly
where the grammar derives the tokens. -/
namespace BlockTrace.Expression

/-- What is due next, inside so many open groups. -/
inductive Stage
  | operand (depth : Nat)
  | operator (depth : Nat)
  deriving DecidableEq, Repr

namespace Stage

def step : Stage → Token → Option Stage
  | operand depth, .number _ => some (operator depth)
  | operand depth, .name _ => some (operator depth)
  | operand depth, .mark c => if c = '(' then some (operand (depth + 1)) else none
  | operator depth, .mark c =>
    if (AddOp.ofChar? c).isSome || (MulOp.ofChar? c).isSome then some (operand depth)
    else if c = ')' ∧ 0 < depth then some (operator (depth - 1))
    else none
  | operator _, _ => none

/-- The stage after a row of tokens, if the scan goes through them. -/
def after (s : Stage) (ts : List Token) : Option Stage :=
  ts.foldlM step s

section Steps
variable {s t : Stage} {k : Nat} {ts us : List Token} {token : Token}

@[simp]
theorem after_nil : s.after [] = some s :=
  rfl

@[simp]
theorem after_cons : s.after (token :: us) = (s.step token).bind fun t => t.after us :=
  List.foldlM_cons

theorem after_append : s.after (ts ++ us) = (s.after ts).bind fun t => t.after us :=
  List.foldlM_append

theorem after_append_of_eq (h : s.after ts = some t) : s.after (ts ++ us) = t.after us := by
  rw [after_append, h, Option.bind_some]

theorem after_singleton : s.after [token] = s.step token := by
  simp

theorem step_addOp (k : Nat) (op : AddOp) :
    (operator k).step (.mark op.symbol) = some (operand k) := by
  rw [step, AddOp.ofChar?_symbol]
  rfl

theorem step_mulOp (k : Nat) (op : MulOp) :
    (operator k).step (.mark op.symbol) = some (operand k) := by
  rw [step, MulOp.ofChar?_symbol, Option.isSome_some, Bool.or_true]
  rfl

/-- All that a scan can meet where an operand is due. -/
theorem step_operand_cases (h : (operand k).step token = some t) :
    ((∃ digits, token = .number digits) ∨ ∃ letters, token = .name letters) ∧ t = operator k ∨
      token = .mark '(' ∧ t = operand (k + 1) := by
  cases token with
  | number digits => exact .inl ⟨.inl ⟨digits, rfl⟩, (Option.some.inj h).symm⟩
  | name letters => exact .inl ⟨.inr ⟨letters, rfl⟩, (Option.some.inj h).symm⟩
  | mark c =>
    rw [step] at h
    split at h
    next hc => exact .inr ⟨congrArg Token.mark hc, (Option.some.inj h).symm⟩
    · cases h

/-- All that a scan can meet where an operator is due. -/
theorem step_operator_cases (h : (operator k).step token = some t) :
    (∃ op : AddOp, token = .mark op.symbol ∧ t = operand k) ∨
      (∃ op : MulOp, token = .mark op.symbol ∧ t = operand k) ∨
      ∃ j, token = .mark ')' ∧ k = j + 1 ∧ t = operator j := by
  cases token with
  | number digits => cases h
  | name letters => cases h
  | mark c =>
    rw [step] at h
    split at h
    next hc =>
      obtain rfl := Option.some.inj h
      rw [Bool.or_eq_true, Option.isSome_iff_exists, Option.isSome_iff_exists] at hc
      rcases hc with ⟨op, hop⟩ | ⟨op, hop⟩
      · exact .inl ⟨op, congrArg Token.mark (AddOp.symbol_of_ofChar? hop), rfl⟩
      · exact .inr (.inl ⟨op, congrArg Token.mark (MulOp.symbol_of_ofChar? hop), rfl⟩)
    next =>
      split at h
      next hc =>
        obtain ⟨rfl, hk⟩ := hc
        exact .inr (.inr ⟨k - 1, rfl, by omega, (Option.some.inj h).symm⟩)
      · cases h

end Steps

end Stage

open Stage (operand operator)

/-- A phrase takes the scan from an operand that is due to an operator, and leaves as many groups
open as it found. -/
theorem after_of_derives {phrase : Phrase} {ts : List Token} {tree : Tree}
    (h : Derives phrase ts tree) (k : Nat) : (operand k).after ts = some (operator k) := by
  induction h generalizing k with
  | literal digits => rfl
  | name letters => rfl
  | group _ ih =>
    have ho : (operand k).step (.mark '(') = some (operand (k + 1)) := rfl
    rw [Stage.after_cons, ho, Option.bind_some, Stage.after_append_of_eq (ih (k + 1))]
    rfl
  | factor _ ih => exact ih k
  | product op _ _ ihl ihr =>
    rw [Stage.after_append_of_eq (ihl k), Stage.after_cons, Stage.step_mulOp, Option.bind_some]
    exact ihr k
  | term _ ih => exact ih k
  | sum op _ _ ihl ihr =>
    rw [Stage.after_append_of_eq (ihl k), Stage.after_cons, Stage.step_addOp, Option.bind_some]
    exact ihr k

/-- After the tokens, inside so many open groups, a derivation goes on with the phrase. -/
inductive Awaits : Phrase → List Token → Nat → Prop
  | start : Awaits .expression [] 0
  | group {ts : List Token} {k : Nat} :
    Awaits .factor ts k → Awaits .expression (ts ++ [.mark '(']) (k + 1)
  | term {ts : List Token} {k : Nat} : Awaits .expression ts k → Awaits .term ts k
  | sum (op : AddOp) {ts us : List Token} {k : Nat} {left : Tree} :
    Awaits .expression ts k → Derives .expression us left →
      Awaits .term (ts ++ (us ++ [.mark op.symbol])) k
  | factor {ts : List Token} {k : Nat} : Awaits .term ts k → Awaits .factor ts k
  | product (op : MulOp) {ts us : List Token} {k : Nat} {left : Tree} :
    Awaits .term ts k → Derives .term us left →
      Awaits .factor (ts ++ (us ++ [.mark op.symbol])) k

/-- The tokens end with the phrase that a derivation had come to. -/
def EndsWith (phrase : Phrase) (ts : List Token) (k : Nat) : Prop :=
  ∃ before us tree, ts = before ++ us ∧ Awaits phrase before k ∧ Derives phrase us tree

section Derivations
variable {ts us : List Token} {k : Nat} {tree : Tree}

theorem Awaits.endsWith_term (h : Awaits .factor ts k) (hd : Derives .factor us tree) :
    EndsWith .term (ts ++ us) k := by
  cases h with
  | factor h => exact ⟨_, _, _, rfl, h, .factor hd⟩
  | product op h hl => exact ⟨_, _, _, by simp, h, .product op hl hd⟩

theorem EndsWith.expression (h : EndsWith .term ts k) : EndsWith .expression ts k := by
  obtain ⟨before, us, tree, rfl, ha, hd⟩ := h
  cases ha with
  | term ha => exact ⟨_, _, _, rfl, ha, .term hd⟩
  | sum op ha hl => exact ⟨_, _, _, by simp, ha, .sum op hl hd⟩

private theorem EndsWith.derives (h : EndsWith .expression ts 0) :
    ∃ tree, Derives .expression ts tree := by
  obtain ⟨before, us, tree, rfl, ha, hd⟩ := h
  cases ha with
  | start => exact ⟨tree, hd⟩

theorem EndsWith.close (h : EndsWith .expression ts (k + 1)) :
    EndsWith .term (ts ++ [.mark ')']) k := by
  obtain ⟨before, us, tree, rfl, ha, hd⟩ := h
  cases ha with
  | group ha => simpa using ha.endsWith_term (.group hd)

/-- What a derivation has done where the scan is at a stage. -/
def Stage.Holds : Stage → List Token → Prop
  | operand k, ts => Awaits .factor ts k
  | operator k, ts => EndsWith .term ts k

private theorem holds_of_step {s t : Stage} {token : Token} (hs : s.Holds ts)
    (h : s.step token = some t) : t.Holds (ts ++ [token]) := by
  cases s with
  | operand k =>
    obtain ⟨⟨digits, rfl⟩ | ⟨letters, rfl⟩, rfl⟩ | ⟨rfl, rfl⟩ := Stage.step_operand_cases h
    · exact Awaits.endsWith_term hs (.literal digits)
    · exact Awaits.endsWith_term hs (.name letters)
    · exact .factor (.term (.group hs))
  | operator k =>
    obtain ⟨op, rfl, rfl⟩ | ⟨op, rfl, rfl⟩ | ⟨j, rfl, rfl, rfl⟩ := Stage.step_operator_cases h
    -- A sum goes on from the whole expression that ends here, a product from its last term.
    · obtain ⟨before, us, tree, rfl, ha, hd⟩ := EndsWith.expression hs
      rw [List.append_assoc]
      exact .factor (.sum op ha hd)
    · obtain ⟨before, us, tree, rfl, ha, hd⟩ := hs
      rw [List.append_assoc]
      exact .product op ha hd
    · exact (EndsWith.expression hs).close

private theorem holds_of_after {s : Stage} (h : (operand 0).after ts = some s) : s.Holds ts := by
  induction ts using List.reverseRecOn generalizing s with
  | nil =>
    obtain rfl := Option.some.inj h
    exact .factor (.term .start)
  | append_singleton ts token ih =>
    rw [Stage.after_append, Option.bind_eq_some_iff] at h
    obtain ⟨t, ht, hs⟩ := h
    exact holds_of_step (ih ht) (Stage.after_singleton ▸ hs)

/-- The scan accepts what the grammar derives, and nothing else. -/
theorem derives_iff_after :
    (∃ tree, Derives .expression ts tree) ↔ (operand 0).after ts = some (operator 0) := by
  constructor
  · rintro ⟨tree, h⟩
    exact after_of_derives h 0
  · intro h
    exact (EndsWith.expression (holds_of_after h)).derives

end Derivations

end BlockTrace.Expression
