import BlockTrace.Expression.Evaluation
import BlockTrace.Store.Cells

/-! The variables and the arrays of a run. The two have separate names. -/
namespace BlockTrace.Store
open Expression (Variables)

inductive Fault
  | duplicateVariable (name : String)
  | duplicateArray (name : String)
  | unknownVariable (name : String)
  | unknownArray (name : String)
  | nonPositiveSize (size : Int32)
  | arrayTooLarge (size : Int32) (limit : Nat)
  | indexOutOfBounds (index : Int32) (length : Nat)
  deriving DecidableEq, Repr

namespace Fault

def message : Fault → String
  | duplicateVariable name => "Variable '" ++ name ++ "' already exists"
  | duplicateArray name => "Array '" ++ name ++ "' already exists"
  | unknownVariable name => "Unknown variable '" ++ name ++ "'"
  | unknownArray name => "Array '" ++ name ++ "' not found"
  | nonPositiveSize _ => "Array size must be positive"
  | arrayTooLarge size limit =>
    "Array size " ++ toString size ++ " exceeds the limit of " ++ toString limit
  | indexOutOfBounds index _ => "Index " ++ toString index ++ " out of bounds"

def code : Fault → String
  | duplicateVariable _ => "RT005"
  | duplicateArray _ => "RT006"
  | unknownVariable _ => "RT007"
  | unknownArray _ => "RT008"
  | nonPositiveSize _ => "RT009"
  | indexOutOfBounds .. => "RT010"
  | arrayTooLarge .. => "RT013"

end Fault

/-- A position counted from zero, unless the index is negative. -/
def position? (index : Int32) : Option Nat :=
  if 0 ≤ index.toInt then some index.toInt.toNat else none

end BlockTrace.Store

namespace BlockTrace

section Steps
variable {ε σ α β : Type} {x : EStateM ε σ α} {s t : σ}

theorem get_bind (f : σ → EStateM ε σ α) (s : σ) : (get >>= f) s = f s s := rfl

theorem bind_of_ok {a : α} (h : x s = .ok a t) (f : α → EStateM ε σ β) :
    (x >>= f) s = f a t := by
  simp only [bind, EStateM.bind, h]

theorem bind_of_error {e : ε} (h : x s = .error e t) (f : α → EStateM ε σ β) :
    (x >>= f) s = .error e t := by
  simp only [bind, EStateM.bind, h]

end Steps

@[ext]
structure Store where
  vars : Expression.Variables := ∅
  arrays : Std.ExtTreeMap String Store.Cells := ∅
  deriving DecidableEq

namespace Store

/-- A change of a store, which may fail. What it did before it failed stays done. -/
abbrev Update := EStateM Fault Store

/-- The array `name`, the position of `index` in it and the value there. -/
def element (store : Store) (name : String) (index : Int32) :
    Except Fault (Cells × Nat × Int32) :=
  match store.arrays[name]? with
  | none => .error (.unknownArray name)
  | some cells =>
    match position? index with
    | none => .error (.indexOutOfBounds index cells.length)
    | some i =>
      match cells.get? i with
      | none => .error (.indexOutOfBounds index cells.length)
      | some value => .ok (cells, i, value)

/-- An element that was found. Its array stays as it is until something is put there. -/
structure Slot where
  array : String
  cells : Cells
  position : Nat
  value : Int32

namespace Update

def declare (name : String) : Update Unit := do
  if name ∈ (← get).vars then throw (.duplicateVariable name)
  else modify fun store => { store with vars := store.vars.insert name 0 }

def assign (name : String) (value : Int32) : Update Unit := do
  if name ∈ (← get).vars then
    modify fun store => { store with vars := store.vars.insert name value }
  else throw (.unknownVariable name)

/-- Adds an array of zeros. A name that is taken counts before a size that is no length, and that
before a length above `limit`. -/
def declareArray (name : String) (size : Int32) (limit : Nat) : Update Unit := do
  if name ∈ (← get).arrays then throw (.duplicateArray name)
  else if size.toInt ≤ 0 then throw (.nonPositiveSize size)
  else if limit < size.toInt.toNat then throw (.arrayTooLarge size limit)
  else
    -- That the memory gives out within the limit, which would be reported as a size above it, is
    -- left out.
    modify fun store =>
      { store with arrays := store.arrays.insert name (Cells.zeros size.toInt.toNat) }

def slot (name : String) (index : Int32) : Update Slot := do
  match (← get).element name index with
  | .error fault => throw fault
  | .ok (cells, i, value) => return ⟨name, cells, i, value⟩

def put (slot : Slot) (value : Int32) : Update Unit :=
  modify fun store =>
    { store with arrays := store.arrays.insert slot.array (slot.cells.set slot.position value) }

/-- The store that an update leaves, if it succeeds. -/
def result {α : Type} (update : Update α) (store : Store) : Except Fault Store :=
  match update store with
  | .ok _ after => .ok after
  | .error fault _ => .error fault

end Update

def clear (store : Store) : Store :=
  { store with vars := ∅, arrays := ∅ }

def declare (store : Store) (name : String) : Except Fault Store :=
  (Update.declare name).result store

def assign (store : Store) (name : String) (value : Int32) : Except Fault Store :=
  (Update.assign name value).result store

def declareArray (store : Store) (name : String) (size : Int32) (limit : Nat) :
    Except Fault Store :=
  (Update.declareArray name size limit).result store

def read (store : Store) (name : String) (index : Int32) : Except Fault Int32 :=
  (store.element name index).map fun found => found.2.2

def write (store : Store) (name : String) (index value : Int32) : Except Fault Store :=
  Update.result (do Update.put (← Update.slot name index) value) store

section Outcomes
variable (store : Store) (name : String) (index value size : Int32) (limit : Nat)

/-- The outcome of an update that has a result or leaves the store as it was. -/
def Update.outcome : Except Fault Store → EStateM.Result Fault Store Unit
  | .ok after => .ok () after
  | .error fault => .error fault store

theorem Update.result_of_outcome {update : Update Unit} {r : Except Fault Store}
    (h : update store = outcome store r) : update.result store = r := by
  rw [result, h]
  cases r <;> rfl

theorem Update.declare_apply : Update.declare name store = outcome store
    (if name ∈ store.vars then .error (.duplicateVariable name)
    else .ok { store with vars := store.vars.insert name 0 }) := by
  rw [Update.declare, get_bind]
  split <;> rfl

theorem declare_eq : store.declare name =
    if name ∈ store.vars then .error (.duplicateVariable name)
    else .ok { store with vars := store.vars.insert name 0 } :=
  Update.result_of_outcome store (Update.declare_apply store name)

theorem Update.assign_apply : Update.assign name value store = outcome store
    (if name ∈ store.vars then .ok { store with vars := store.vars.insert name value }
    else .error (.unknownVariable name)) := by
  rw [Update.assign, get_bind]
  split <;> rfl

theorem assign_eq : store.assign name value =
    if name ∈ store.vars then .ok { store with vars := store.vars.insert name value }
    else .error (.unknownVariable name) :=
  Update.result_of_outcome store (Update.assign_apply store name value)

theorem Update.declareArray_apply : Update.declareArray name size limit store = outcome store
    (if name ∈ store.arrays then .error (.duplicateArray name)
    else if size.toInt ≤ 0 then .error (.nonPositiveSize size)
    else if limit < size.toInt.toNat then .error (.arrayTooLarge size limit)
    else .ok { store with
      arrays := store.arrays.insert name (Cells.zeros size.toInt.toNat) }) := by
  rw [Update.declareArray, get_bind]
  split
  · rfl
  · split
    · rfl
    · split <;> rfl

theorem declareArray_eq : store.declareArray name size limit =
    if name ∈ store.arrays then .error (.duplicateArray name)
    else if size.toInt ≤ 0 then .error (.nonPositiveSize size)
    else if limit < size.toInt.toNat then .error (.arrayTooLarge size limit)
    else .ok { store with arrays := store.arrays.insert name (Cells.zeros size.toInt.toNat) } :=
  Update.result_of_outcome store (Update.declareArray_apply store name size limit)

theorem Update.slot_apply : Update.slot name index store =
    match store.element name index with
    | .error fault => .error fault store
    | .ok (cells, i, value) => .ok ⟨name, cells, i, value⟩ store := by
  rw [Update.slot, get_bind]
  cases store.element name index <;> rfl

theorem write_eq : store.write name index value = (store.element name index).map fun found =>
    { store with arrays := store.arrays.insert name (found.1.set found.2.1 value) } := by
  have hs := Update.slot_apply store name index
  unfold write Update.result
  cases he : store.element name index with
  | error fault =>
    rw [he] at hs
    rw [bind_of_error hs]
    rfl
  | ok found =>
    rw [he] at hs
    rw [bind_of_ok hs]
    rfl

end Outcomes

end Store

end BlockTrace
