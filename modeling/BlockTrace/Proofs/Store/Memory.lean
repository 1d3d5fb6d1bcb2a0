import BlockTrace.Proofs.Attempt
import BlockTrace.Store.Basic
import Mathlib.Logic.Function.Basic

/-! What a store holds, as plain tables, and what each operation on a store does to them. A store
holds nothing else, so that the tables say everything about an operation that succeeds. -/
namespace BlockTrace.Store

/-- The values of a row, from its first cell to its last. -/
def Cells.toList (cells : Cells) : List Int32 :=
  (List.range cells.length).map fun i => (cells.get? i).getD 0

namespace Cells

@[simp] theorem length_toList (cells : Cells) : cells.toList.length = cells.length := by
  simp [toList]

theorem get?_eq_none_iff (cells : Cells) (i : Nat) : cells.get? i = none ↔ cells.length ≤ i := by
  unfold get?
  split <;> simp <;> omega

theorem getElem?_toList (cells : Cells) (i : Nat) : cells.toList[i]? = cells.get? i := by
  by_cases hi : i < cells.length
  · cases hv : cells.get? i with
    | none => exact absurd ((get?_eq_none_iff cells i).1 hv) (by omega)
    | some v => simp [toList, hi, hv]
  · rw [(get?_eq_none_iff cells i).2 (by omega)]
    exact List.getElem?_eq_none (by simpa using hi)

private theorem toList_zeros (n : Nat) : (zeros n).toList = List.replicate n 0 := by
  apply List.ext_getElem?
  intro i
  rw [getElem?_toList, get?_zeros, List.getElem?_replicate]

theorem toList_set (cells : Cells) (i : Nat) (value : Int32) :
    (cells.set i value).toList = cells.toList.set i value := by
  apply List.ext_getElem?
  intro j
  rw [getElem?_toList, get?_set, List.getElem?_set, getElem?_toList, length_toList]
  grind [get?_eq_none_iff]

private theorem toList_injective : Function.Injective toList := by
  intro a b h
  refine ext_get? ?_ fun i => ?_
  · rw [← length_toList a, h, length_toList]
  · rw [← getElem?_toList a, h, getElem?_toList]

end Cells

/-- The values of variables and the elements of arrays, by name. -/
@[ext]
structure Memory where
  vars : String → Option Int32
  arrays : String → Option (List Int32)

namespace Memory

def empty : Memory :=
  ⟨fun _ => none, fun _ => none⟩

def setVar (m : Memory) (name : String) (value : Int32) : Memory :=
  { m with vars := Function.update m.vars name (some value) }

def setArray (m : Memory) (name : String) (elements : List Int32) : Memory :=
  { m with arrays := Function.update m.arrays name (some elements) }

theorem vars_setVar (m : Memory) (name other : String) (value : Int32) :
    (m.setVar name value).vars other = if other = name then some value else m.vars other :=
  Function.update_apply ..

theorem arrays_setArray (m : Memory) (name other : String) (elements : List Int32) :
    (m.setArray name elements).arrays other =
      if other = name then some elements else m.arrays other :=
  Function.update_apply ..

end Memory

/-- What a store holds. -/
def memory (store : Store) : Memory :=
  ⟨fun name => store.vars[name]?, fun name => store.arrays[name]?.map Cells.toList⟩

theorem memory_injective : Function.Injective memory := by
  intro a b h
  obtain ⟨hv, ha⟩ := Memory.mk.injEq .. ▸ h
  refine Store.ext (Std.ExtTreeMap.ext_getElem? fun name => congrFun hv name)
    (Std.ExtTreeMap.ext_getElem? fun name => ?_)
  exact Option.map_injective Cells.toList_injective (congrFun ha name)

section Operations
variable {store after : Store} {name : String} {index value size : Int32} {limit : Nat}

theorem memory_empty : ({} : Store).memory = Memory.empty := by
  simp [memory, Memory.empty]

private theorem getElem?_insert {α : Type} (table : Std.ExtTreeMap String α) (name other : String)
    (a : α) : (table.insert name a)[other]? = if other = name then some a else table[other]? := by
  by_cases h : other = name
  · subst h
    rw [Std.ExtTreeMap.getElem?_insert_self, if_pos rfl]
  · have hc : compare name other ≠ .eq := fun he => h (Std.LawfulEqCmp.eq_of_compare he).symm
    rw [Std.ExtTreeMap.getElem?_insert, if_neg hc, if_neg h]

theorem memory_insert_var (store : Store) (name : String) (value : Int32) :
    memory { store with vars := store.vars.insert name value } =
      store.memory.setVar name value := by
  refine Memory.ext (funext fun other => ?_) rfl
  simp [memory, Memory.setVar, getElem?_insert, Function.update_apply]

theorem memory_insert_array (store : Store) (name : String) (cells : Cells) :
    memory { store with arrays := store.arrays.insert name cells } =
      store.memory.setArray name cells.toList := by
  refine Memory.ext rfl (funext fun other => ?_)
  simp only [memory, Memory.setArray, getElem?_insert, Function.update_apply]
  split <;> rfl

/-- A variable is declared as zero, and only under a new name. -/
theorem declare_eq_ok_iff :
    store.declare name = .ok after ↔
      store.memory.vars name = none ∧ after.memory = store.memory.setVar name 0 := by
  have hm : name ∈ store.vars ↔ store.memory.vars name ≠ none := by
    simp [memory]
  rw [← memory_insert_var, memory_injective.eq_iff]
  rw [declare_eq]
  by_cases h : name ∈ store.vars
  · simp [h, hm.1 h]
  · simp [h, not_not.1 (mt hm.2 h), eq_comm]

/-- Only a variable that was declared is assigned to. -/
theorem assign_eq_ok_iff :
    store.assign name value = .ok after ↔
      store.memory.vars name ≠ none ∧ after.memory = store.memory.setVar name value := by
  have hm : name ∈ store.vars ↔ store.memory.vars name ≠ none := by
    simp [memory]
  rw [← memory_insert_var, memory_injective.eq_iff, ← hm]
  rw [assign_eq]
  by_cases h : name ∈ store.vars
  · simp [h, eq_comm]
  · simp [h]

/-- An array is declared as zeros, only under a new name, and with a size from one up to the
limit. -/
theorem declareArray_eq_ok_iff :
    store.declareArray name size limit = .ok after ↔
      store.memory.arrays name = none ∧ 0 < size.toInt ∧ size.toInt.toNat ≤ limit ∧
        after.memory = store.memory.setArray name (List.replicate size.toInt.toNat 0) := by
  have hm : name ∈ store.arrays ↔ store.memory.arrays name ≠ none := by
    simp [memory]
  rw [← Cells.toList_zeros, ← memory_insert_array, memory_injective.eq_iff]
  rw [declareArray_eq]
  by_cases h : name ∈ store.arrays
  · simp [h, hm.1 h]
  · have hn : store.memory.arrays name = none := not_not.1 (mt hm.2 h)
    by_cases hs : size.toInt ≤ 0
    · simp [h, hs, Int.not_lt.2 hs]
    · rw [if_neg h, if_neg hs]
      by_cases hl : limit < size.toInt.toNat
      · rw [if_pos hl]
        simp only [reduceCtorEq, false_iff]
        exact fun hx => absurd hx.2.2.1 (Nat.not_le.2 hl)
      · rw [if_neg hl, Except.ok.injEq, eq_comm]
        exact ⟨fun he => ⟨hn, Int.not_le.1 hs, Nat.not_lt.1 hl, he⟩, fun hx => hx.2.2.2⟩

/-- An element that exists is that of a known array, at an index that lies in it. -/
theorem element_eq_ok_iff {cells : Cells} {i : Nat} :
    store.element name index = .ok (cells, i, value) ↔
      store.arrays[name]? = some cells ∧ 0 ≤ index.toInt ∧ i = index.toInt.toNat ∧
        cells.get? i = some value := by
  unfold element position?
  cases store.arrays[name]? with
  | none => simp
  | some found =>
    by_cases hi : 0 ≤ index.toInt
    · simp only [hi, if_true, Option.some.injEq, true_and]
      cases hg : found.get? index.toInt.toNat with
      | none => grind
      | some v => grind
    · simp [hi]

theorem read_eq_ok_iff :
    store.read name index = .ok value ↔
      ∃ elements, store.memory.arrays name = some elements ∧ 0 ≤ index.toInt ∧
        elements[index.toInt.toNat]? = some value := by
  constructor
  · intro h
    obtain ⟨⟨cells, i, v⟩, he, rfl⟩ := map_eq_ok_iff.1 h
    obtain ⟨ha, hi, rfl, hv⟩ := element_eq_ok_iff.1 he
    exact ⟨cells.toList, by simp [memory, ha], hi, (Cells.getElem?_toList cells _).trans hv⟩
  · rintro ⟨elements, ha, hi, hv⟩
    obtain ⟨cells, hc, rfl⟩ := Option.map_eq_some_iff.1 ha
    rw [Cells.getElem?_toList] at hv
    exact map_eq_ok_iff.2 ⟨_, element_eq_ok_iff.2 ⟨hc, hi, rfl, hv⟩, rfl⟩

theorem write_eq_ok_iff :
    store.write name index value = .ok after ↔
      ∃ elements, store.memory.arrays name = some elements ∧ 0 ≤ index.toInt ∧
        index.toInt.toNat < elements.length ∧
        after.memory = store.memory.setArray name (elements.set index.toInt.toNat value) := by
  rw [write_eq]
  constructor
  · intro h
    obtain ⟨⟨cells, i, v⟩, he, rfl⟩ := map_eq_ok_iff.1 h
    obtain ⟨ha, hi, rfl, hv⟩ := element_eq_ok_iff.1 he
    refine ⟨cells.toList, by simp [memory, ha], hi, ?_, ?_⟩
    · rw [← Cells.getElem?_toList] at hv
      exact (List.getElem?_eq_some_iff.1 hv).1
    · rw [memory_insert_array, Cells.toList_set]
  · rintro ⟨elements, ha, hi, hl, hm⟩
    obtain ⟨cells, hc, rfl⟩ := Option.map_eq_some_iff.1 ha
    have hv : cells.get? index.toInt.toNat = some (cells.toList[index.toInt.toNat]) := by
      rw [← Cells.getElem?_toList, List.getElem?_eq_getElem hl]
    refine map_eq_ok_iff.2 ⟨_, element_eq_ok_iff.2 ⟨hc, hi, rfl, hv⟩, memory_injective ?_⟩
    rw [hm, memory_insert_array, Cells.toList_set]

end Operations

end BlockTrace.Store
