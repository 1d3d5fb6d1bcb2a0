import BlockTrace.Proofs.Expression.Places
import Mathlib

/-! Wrapping at every step is wrapping once at the end. Where nothing is divided, the value of an
expression is what its exact value over the integers leaves modulo `2 ^ 32`. -/
namespace BlockTrace.Expression

def AddOp.integer : AddOp → Int → Int → Int
  | plus, a, b => a + b
  | minus, a, b => a - b

/-- A quotient or a remainder of integers is not what wrapped operands have, so neither counts. -/
def MulOp.integer? : MulOp → Int → Int → Option Int
  | times, a, b => some (a * b)
  | divide, _, _ => none
  | modulo, _, _ => none

/-- The exact value of a tree without division, with literals of any length and without a bound on
what comes out on the way. -/
def Tree.integer? (vars : Variables) : Tree → Option Int
  | literal digits => some (decimal digits)
  | name letters => vars[String.ofList letters]?.map Int32.toInt
  | sum op left right => do
    let a ← left.integer? vars
    let b ← right.integer? vars
    return op.integer a b
  | product op left right => do
    let a ← left.integer? vars
    let b ← right.integer? vars
    op.integer? a b

def Tree.DivisionFree : Tree → Prop
  | literal _ => True
  | name _ => True
  | sum _ left right => left.DivisionFree ∧ right.DivisionFree
  | product op left right => op = .times ∧ left.DivisionFree ∧ right.DivisionFree

section Wrapping

/-- Among the values of 32 bits one is congruent to an integer: the integer, wrapped. -/
theorem toInt_modEq_iff (w : Int32) (n : Int) : w.toInt ≡ n [ZMOD 2 ^ 32] ↔ w = .ofInt n := by
  have hsize : (2 : Int) ^ 32 = (2 ^ 32 : Nat) := rfl
  rw [hsize]
  constructor
  · intro h
    rw [eq_comm, Int32.ofInt_eq_iff_bmod_eq_toInt, ← Int.emod_bmod, ← h.eq, Int.emod_bmod]
    exact (Int32.ofInt_eq_iff_bmod_eq_toInt _ w).1 (Int32.ofInt_toInt w)
  · rintro rfl
    rw [Int32.toInt_ofInt]
    exact Int.bmod_emod

private theorem AddOp.meaning_ofInt (op : AddOp) (m n : Int) :
    op.meaning (.ofInt m) (.ofInt n) = .ofInt (op.integer m n) := by
  rw [← AddOp.apply_eq_meaning]
  cases op with
  | plus => exact (Int32.ofInt_add m n).symm
  | minus => exact (Int32.ofInt_sub m n).symm

private theorem MulOp.meaning_times_ofInt (m n : Int) :
    MulOp.times.meaning (.ofInt m) (.ofInt n) = .ok (.ofInt (m * n)) := by
  rw [← MulOp.apply_eq_meaning, Int32.ofInt_mul]
  rfl

end Wrapping

section Trees
variable {vars : Variables}

/-- The value of a tree without division is its exact value, wrapped. -/
theorem Tree.integer?_of_evaluate {tree : Tree} {v : Int32} (hf : tree.DivisionFree)
    (h : tree.evaluate vars = .ok v) : ∃ n, tree.integer? vars = some n ∧ v = .ofInt n := by
  induction tree generalizing v with
  | literal digits =>
    cases h
    exact ⟨_, rfl, rfl⟩
  | name letters =>
    rw [Tree.evaluate] at h
    split at h
    next value hv =>
      cases h
      exact ⟨v.toInt, by rw [Tree.integer?, hv, Option.map_some], (Int32.ofInt_toInt v).symm⟩
    · cases h
  | sum op left right ihl ihr =>
    rw [Tree.evaluate] at h
    obtain ⟨a, ha, h⟩ := bind_eq_ok_iff.1 h
    obtain ⟨b, hb, h⟩ := bind_eq_ok_iff.1 h
    obtain ⟨m, hm, rfl⟩ := ihl hf.1 ha
    obtain ⟨n, hn, rfl⟩ := ihr hf.2 hb
    cases h
    exact ⟨op.integer m n, by rw [Tree.integer?, hm, hn]; rfl, op.meaning_ofInt m n⟩
  | product op left right ihl ihr =>
    obtain ⟨rfl, hl, hr⟩ := hf
    rw [Tree.evaluate] at h
    obtain ⟨a, ha, h⟩ := bind_eq_ok_iff.1 h
    obtain ⟨b, hb, h⟩ := bind_eq_ok_iff.1 h
    obtain ⟨m, hm, rfl⟩ := ihl hl ha
    obtain ⟨n, hn, rfl⟩ := ihr hr hb
    rw [MulOp.meaning_times_ofInt] at h
    cases h
    exact ⟨m * n, by rw [Tree.integer?, hm, hn]; rfl, rfl⟩

/-- A tree divides only where one of the two symbols is a token. -/
theorem divisionFree_of_derives {phrase : Phrase} {ts : List Token} {tree : Tree}
    (h : Derives phrase ts tree) (hd : .mark '/' ∉ ts) (hm : .mark '%' ∉ ts) :
    tree.DivisionFree := by
  induction h with
  | literal digits => trivial
  | name letters => trivial
  | group _ ih => exact ih (fun h => hd (by simp [h])) fun h => hm (by simp [h])
  | factor _ ih => exact ih hd hm
  | term _ ih => exact ih hd hm
  | product op _ _ ihl ihr =>
    refine ⟨?_, ?_, ?_⟩
    · cases op with
      | times => rfl
      | divide => exact absurd (by simp [MulOp.symbol]) hd
      | modulo => exact absurd (by simp [MulOp.symbol]) hm
    · exact ihl (fun h => hd (by simp [h])) fun h => hm (by simp [h])
    · exact ihr (fun h => hd (by simp [h])) fun h => hm (by simp [h])
  | sum op _ _ ihl ihr =>
    constructor
    · exact ihl (fun h => hd (by simp [h])) fun h => hm (by simp [h])
    · exact ihr (fun h => hd (by simp [h])) fun h => hm (by simp [h])

theorem mem_of_mark_mem_tokens {text : List Char} {c : Char} (h : .mark c ∈ tokens text) :
    c ∈ text := by
  have hc : c ∈ (tokens text).flatMap Token.letters :=
    List.mem_flatMap.2 ⟨.mark c, h, List.mem_singleton_self c⟩
  rw [letters_tokens] at hc
  exact List.mem_of_mem_filter hc

end Trees

/-- Where no division and no remainder stands in a text that has a value, every tree of the text has
an exact value over the integers, and of the values of 32 bits just the one that was found is
congruent to it. -/
theorem value_is_exact_value_wrapped {vars : Variables} {text : List Char} {v : Int32}
    (hd : '/' ∉ text) (hm : '%' ∉ text) (h : evaluate vars text = .ok v) :
    (∃ tree, Derives .expression (tokens text) tree) ∧
      ∀ tree, Derives .expression (tokens text) tree →
        ∃ n, tree.integer? vars = some n ∧ ∀ w : Int32, w.toInt ≡ n [ZMOD 2 ^ 32] ↔ w = v := by
  constructor
  · obtain ⟨tree, ht, -⟩ := derives_of_evaluate vars text h
    exact ⟨tree, ht⟩
  · intro tree ht
    have hv : tree.evaluate vars = .ok v := by rw [← evaluate_of_derives vars text ht, h]; rfl
    have hf : tree.DivisionFree := divisionFree_of_derives ht
      (fun hc => hd (mem_of_mark_mem_tokens hc)) fun hc => hm (mem_of_mark_mem_tokens hc)
    obtain ⟨n, hn, rfl⟩ := Tree.integer?_of_evaluate hf hv
    exact ⟨n, hn, fun w => toInt_modEq_iff w n⟩

/-- A literal that no 64 bits hold, times a group, times a negative variable. -/
theorem long_product_wraps_once :
    evaluate ((∅ : Variables).insert "x" (-5)) "99999999999999999999 * (x - 1) * x".toList =
      .ok (-1679818782) ∧
    ∀ w : Int32, w.toInt ≡ 2999999999999999999970 [ZMOD 2 ^ 32] ↔ w = -1679818782 := by
  obtain ⟨h, ht⟩ :
      evaluate ((∅ : Variables).insert "x" (-5)) "99999999999999999999 * (x - 1) * x".toList =
        .ok (-1679818782) ∧
      tokens "99999999999999999999 * (x - 1) * x".toList =
        [.number "99999999999999999999".toList, .mark '*', .mark '(', .name ['x'], .mark '-',
          .number ['1'], .mark ')', .mark '*', .name ['x']] :=
    ⟨by cbv, by cbv⟩
  have hd : Derives .expression (tokens "99999999999999999999 * (x - 1) * x".toList)
      (.product .times (.product .times (.literal "99999999999999999999".toList)
        (.sum .minus (.name ['x']) (.literal ['1']))) (.name ['x'])) := by
    have hg := Derives.group
      (.sum .minus (.term (.factor (.name ['x']))) (.factor (.literal ['1'])))
    have hp := Derives.product .times (.factor (.literal "99999999999999999999".toList)) hg
    rw [ht]
    exact .term (.product .times hp (.name ['x']))
  obtain ⟨-, he⟩ := value_is_exact_value_wrapped (by decide) (by decide) h
  obtain ⟨n, hn, hw⟩ := he _ hd
  have hx : ((∅ : Variables).insert "x" (-5))[String.ofList ['x']]? = some (-5) := by
    rw [show String.ofList ['x'] = "x" from rfl, Std.ExtTreeMap.getElem?_insert_self]
  obtain rfl : 2999999999999999999970 = n := by
    simp only [Tree.integer?, hx] at hn
    exact Option.some.inj hn
  exact ⟨h, hw⟩

end BlockTrace.Expression
