import Std.Data.ExtTreeMap

/-! A row of cells that starts as zeros. Only the cells that are not zero are kept, so that a long
row costs nothing and two rows are equal exactly when they hold the same values. -/
namespace BlockTrace.Store

structure Cells where
  length : Nat
  filled : Std.ExtTreeMap Nat Int32
  inside : ∀ i v, filled[i]? = some v → i < length ∧ v ≠ 0

namespace Cells

def zeros (length : Nat) : Cells :=
  ⟨length, ∅, by simp⟩

def get? (cells : Cells) (i : Nat) : Option Int32 :=
  if i < cells.length then some (cells.filled[i]?.getD 0) else none

/-- Writes a cell; beyond the last one nothing changes. -/
def set (cells : Cells) (i : Nat) (value : Int32) : Cells :=
  if hi : i < cells.length then
    if hv : value = 0 then
      ⟨cells.length, cells.filled.erase i, fun j v h => by
        rw [Std.ExtTreeMap.getElem?_erase] at h
        split at h
        · simp at h
        · exact cells.inside j v h⟩
    else
      ⟨cells.length, cells.filled.insert i value, fun j v h => by
        rw [Std.ExtTreeMap.getElem?_insert] at h
        split at h
        next he =>
          obtain rfl := Std.LawfulEqCmp.eq_of_compare he
          obtain rfl := Option.some.inj h
          exact ⟨hi, hv⟩
        · exact cells.inside j v h⟩
  else cells

/-- The cells that are not zero, by increasing index. -/
def nonzero (cells : Cells) : List (Nat × Int32) :=
  cells.filled.toList

@[simp] theorem length_zeros (n : Nat) : (zeros n).length = n := rfl

@[simp] theorem length_set (cells : Cells) (i : Nat) (value : Int32) :
    (cells.set i value).length = cells.length := by
  unfold set
  split
  · split <;> rfl
  · rfl

theorem get?_zeros (n i : Nat) : (zeros n).get? i = if i < n then some 0 else none := by
  simp [get?, zeros]

theorem get?_set (cells : Cells) (i j : Nat) (value : Int32) :
    (cells.set i value).get? j =
      if i = j ∧ j < cells.length then some value else cells.get? j := by
  unfold set
  split
  next hi =>
    split
    next hv =>
      simp only [get?, Std.ExtTreeMap.getElem?_erase, Nat.compare_eq_eq]
      grind
    next hv =>
      simp only [get?, Std.ExtTreeMap.getElem?_insert, Nat.compare_eq_eq]
      grind
  next hi => grind

theorem filled_getElem? (cells : Cells) (i : Nat) :
    cells.filled[i]? = (cells.get? i).bind fun v => if v = 0 then none else some v := by
  unfold get?
  cases h : cells.filled[i]? with
  | none => by_cases hi : i < cells.length <;> simp [hi]
  | some v =>
    obtain ⟨hi, hv⟩ := cells.inside i v h
    simp [hi, hv]

/-- Rows of the same length that hold the same values are equal. -/
theorem ext_get? {a b : Cells} (hl : a.length = b.length) (hg : ∀ i, a.get? i = b.get? i) :
    a = b := by
  have hf : a.filled = b.filled :=
    Std.ExtTreeMap.ext_getElem? fun i => by rw [filled_getElem?, filled_getElem?, hg]
  cases a
  cases b
  simp_all

theorem ext_nonzero {a b : Cells} (hl : a.length = b.length) (hn : a.nonzero = b.nonzero) :
    a = b := by
  have hf : a.filled = b.filled := Std.ExtTreeMap.ext_toList (List.Perm.of_eq hn)
  cases a
  cases b
  simp_all

instance : DecidableEq Cells := fun a b =>
  decidable_of_iff (a.length = b.length ∧ a.nonzero = b.nonzero)
    ⟨fun h => ext_nonzero h.1 h.2, fun h => by simp [h]⟩

end Cells

end BlockTrace.Store
