import BlockTrace.Run.State

/-! What the blocks without children do, check by check and change by change. An action that fails
stops at once, and what it changed before that stays changed. -/
namespace BlockTrace.Run
open Program (Key Parameters)

abbrev Action := EStateM Fault State

namespace Action
variable {α : Type}

/-- A check, which changes nothing. -/
def check : Except Fault α → Action α
  | .ok a, s => .ok a s
  | .error fault, s => .error fault s

def onStore (update : Store.Update α) : Action α := fun s =>
  match update s.store with
  | .ok a store => .ok a { s with store }
  | .error fault store => .error (.store fault) { s with store }

end Action

instance : MonadLift (Except Fault) Action := ⟨Action.check⟩

instance : MonadLift Store.Update Action := ⟨Action.onStore⟩

/-- The names of a list written with commas, without the blanks around them. -/
def listedNames (text : String) : List String :=
  (Text.pieces ',' text.toList).map fun piece => String.ofList (Text.trim piece)

namespace Action

def emit (event : Event) : Action Unit :=
  modify fun s => s.emit event

def declareName (name : String) : Action Unit := do
  if name.isEmpty then throw .emptyVariableName
  else
    Store.Update.declare name
    emit (.declared name)

/-- Declares the names one after the other, up to the first that fails. -/
def declareEach : List String → Action Unit
  | [] => return
  | name :: rest => do
    declareName name
    declareEach rest

def declareVars (p : Parameters) : Action Unit := do
  let names ← require p .names
  declareEach (listedNames names)

/-- The target has to exist before the expression is looked at. -/
def assign (p : Parameters) : Action Unit := do
  let name ← require p .varName
  let text ← require p .expression
  if name ∈ (← get).store.vars then
    let value ← evaluate (← get).store text
    Store.Update.assign name value
    emit (.assigned name value)
  else throw (.store (.unknownVariable name))

def arithmetic (p : Parameters) : Action Unit := do
  let text ← require p .expression
  let value ← evaluate (← get).store text
  emit (.evaluated text value)

def declareArray (maxLength : Nat) (p : Parameters) : Action Unit := do
  let name ← require p .name
  let size ← requireInteger p .size (.invalidNumber .size)
  Store.Update.declareArray name size maxLength
  emit (.arrayDeclared name size)

/-- The element has to exist before the operation is looked at. A value that is no integer is
reported like one that is missing. -/
def arrayAccess (p : Parameters) : Action Unit := do
  let name ← require p .arrayName
  let index ← requireInteger p .index (.invalidNumber .index)
  let operation ← require p .operation
  let slot ← Store.Update.slot name index
  if operation = "get" then emit (.elementRead name index slot.value)
  else if operation = "set" then
    let value ← requireInteger p .value (.missingParameter .value)
    Store.Update.put slot value
    emit (.elementWritten name index value)
  else throw (.unknownOperation operation)

end Action

end BlockTrace.Run
