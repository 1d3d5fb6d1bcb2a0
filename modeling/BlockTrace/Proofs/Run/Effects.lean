import BlockTrace.Proofs.Attempt
import BlockTrace.Run.Session

/-! The actions of the blocks as effects. An effect is worked out from the store alone. An action
that has one makes no change before its last check, and when it fails it leaves the state as it
was; only a list of declarations keeps the names before the one that fails. -/
namespace BlockTrace.Run
open Program (Parameters)
open Store (Update)

/-- What a step does: the store after it, and the event that it leaves in the trace. -/
structure Effect where
  store : Store
  event : Event
  deriving DecidableEq

def State.apply (s : State) (effect : Effect) : State :=
  { s with store := effect.store, trace := s.trace.push effect.event }

def Config.apply (c : Config) (effect : Effect) : Config :=
  { c with state := c.state.apply effect }

section Effects

def declareName (name : String) (store : Store) : Except Fault Effect :=
  if name.isEmpty then .error .emptyVariableName
  else do
    let after ← (store.declare name).mapError .store
    return ⟨after, .declared name⟩

def declareEach : List String → State → State × Option Fault
  | [], s => (s, none)
  | name :: rest, s =>
    match declareName name s.store with
    | .error fault => (s, some fault)
    | .ok effect => declareEach rest (s.apply effect)

def declareVars (p : Parameters) (s : State) : State × Option Fault :=
  match require p .names with
  | .error fault => (s, some fault)
  | .ok names => declareEach (listedNames names) s

def assign (p : Parameters) (store : Store) : Except Fault Effect := do
  let name ← require p .varName
  let text ← require p .expression
  if name ∈ store.vars then
    let value ← evaluate store text
    let after ← (store.assign name value).mapError .store
    return ⟨after, .assigned name value⟩
  else
    throw (.store (.unknownVariable name))

def arithmetic (p : Parameters) (store : Store) : Except Fault Effect := do
  let text ← require p .expression
  let value ← evaluate store text
  return ⟨store, .evaluated text value⟩

def declareArray (maxLength : Nat) (p : Parameters) (store : Store) : Except Fault Effect := do
  let name ← require p .name
  let size ← requireInteger p .size (.invalidNumber .size)
  let after ← (store.declareArray name size maxLength).mapError .store
  return ⟨after, .arrayDeclared name size⟩

def arrayAccess (p : Parameters) (store : Store) : Except Fault Effect := do
  let name ← require p .arrayName
  let index ← requireInteger p .index (.invalidNumber .index)
  let operation ← require p .operation
  let current ← (store.read name index).mapError .store
  if operation = "get" then
    return ⟨store, .elementRead name index current⟩
  else if operation = "set" then
    let value ← requireInteger p .value (.missingParameter .value)
    let after ← (store.write name index value).mapError .store
    return ⟨after, .elementWritten name index value⟩
  else
    throw (.unknownOperation operation)

end Effects

namespace Action

/-- What an action gives that has an effect or leaves the state as it was. -/
def outcome (s : State) : Except Fault Effect → EStateM.Result Fault State Unit
  | .ok effect => .ok () (s.apply effect)
  | .error fault => .error fault s

/-- What an action gives that may fail halfway. -/
def partly : State × Option Fault → EStateM.Result Fault State Unit
  | (s, none) => .ok () s
  | (s, some fault) => .error fault s

section Steps
variable {α : Type} {s : State}

/-- A check comes before every change: if it fails, nothing has been done. -/
private theorem check_bind {x : Except Fault α} {f : α → Action Unit}
    {g : α → Except Fault Effect} (h : ∀ a, x = .ok a → f a s = outcome s (g a)) :
    (check x >>= f) s = outcome s (x >>= g) := by
  cases x with
  | error fault => rfl
  | ok a => exact h a rfl

private theorem onStore_of_ok {update : Update α} {a : α} {after : Store}
    (h : update s.store = .ok a after) : onStore update s = .ok a { s with store := after } := by
  simp only [onStore, h]

private theorem onStore_of_error {update : Update α} {fault : Store.Fault} {after : Store}
    (h : update s.store = .error fault after) :
    onStore update s = .error (.store fault) { s with store := after } := by
  simp only [onStore, h]

/-- An update that fails clean, and a line for it if it succeeds. -/
private theorem update_emit {update : Update Unit} {r : Except Store.Fault Store}
    (h : update s.store = Update.outcome s.store r) (event : Event) :
    (do onStore update; emit event) s =
      outcome s (do
        let after ← r.mapError Fault.store
        return ⟨after, event⟩) := by
  cases r with
  | error fault => exact bind_of_error (onStore_of_error h) _
  | ok after => exact bind_of_ok (onStore_of_ok h) _

/-- To find an element is a check. -/
private theorem slot_bind {name : String} {index : Int32} {f : Store.Slot → Action Unit}
    {g : Int32 → Except Fault Effect}
    (h : ∀ cells i value, s.store.element name index = .ok (cells, i, value) →
      f ⟨name, cells, i, value⟩ s = outcome s (g value)) :
    (onStore (Update.slot name index) >>= f) s =
      outcome s ((s.store.read name index).mapError Fault.store >>= g) := by
  have hs := Update.slot_apply s.store name index
  unfold Store.read
  cases he : s.store.element name index with
  | error fault =>
    rw [he] at hs
    exact bind_of_error (onStore_of_error hs) f
  | ok found =>
    obtain ⟨cells, i, value⟩ := found
    rw [he] at hs
    rw [bind_of_ok (onStore_of_ok hs) f]
    exact h cells i value he

end Steps

section Actions
variable (p : Parameters) (s : State)

theorem arithmetic_apply : arithmetic p s = outcome s (Run.arithmetic p s.store) := by
  apply check_bind
  intro text _
  apply check_bind
  intro value _
  rfl

theorem assign_apply : assign p s = outcome s (Run.assign p s.store) := by
  apply check_bind
  intro name _
  apply check_bind
  intro text _
  rw [get_bind]
  split
  · rw [get_bind]
    apply check_bind
    intro value _
    apply update_emit
    rw [Store.assign_eq]
    exact Update.assign_apply _ _ _
  · rfl

theorem declareArray_apply (maxLength : Nat) :
    declareArray maxLength p s = outcome s (Run.declareArray maxLength p s.store) := by
  apply check_bind
  intro name _
  apply check_bind
  intro size _
  apply update_emit
  rw [Store.declareArray_eq]
  exact Update.declareArray_apply _ _ _ _

/-- Between the finding of an element and its writing there is one more check, and it changes
nothing. -/
theorem arrayAccess_apply : arrayAccess p s = outcome s (Run.arrayAccess p s.store) := by
  apply check_bind
  intro name _
  apply check_bind
  intro index _
  apply check_bind
  intro operation _
  apply slot_bind
  intro cells i current he
  split
  · rfl
  · split
    · apply check_bind
      intro value _
      apply update_emit
      rw [Store.write_eq, he]
      rfl
    · rfl

private theorem declareName_apply (name : String) :
    declareName name s = outcome s (Run.declareName name s.store) := by
  unfold declareName Run.declareName
  split
  · rfl
  · apply update_emit
    rw [Store.declare_eq]
    exact Update.declare_apply _ _

private theorem declareEach_apply (names : List String) :
    declareEach names s = partly (Run.declareEach names s) := by
  induction names generalizing s with
  | nil => rfl
  | cons name rest ih =>
    have hn := declareName_apply s name
    rw [declareEach, Run.declareEach]
    cases hd : Run.declareName name s.store with
    | error fault =>
      rw [hd] at hn
      exact bind_of_error hn _
    | ok effect =>
      rw [hd] at hn
      exact (bind_of_ok hn _).trans (ih _)

theorem declareVars_apply : declareVars p s = partly (Run.declareVars p s) := by
  unfold declareVars Run.declareVars
  cases require p .names with
  | error fault => rfl
  | ok names => exact declareEach_apply s (listedNames names)

end Actions

end Action

/-- The outcome of a step that either has its effect or fails and changes nothing. -/
def Outcome.ofEffect (c : Config) : Except Fault Effect → Outcome
  | .ok effect => completed (c.apply effect)
  | .error fault => aborted fault c

/-- The outcome of a step that may fail halfway. -/
def Outcome.ofPartly (interrupt : Bool) : State × Option Fault → Outcome
  | (state, none) => completed ⟨state, interrupt⟩
  | (state, some fault) => aborted fault ⟨state, interrupt⟩

section Execution
variable (limits : Limits) (fuel : Nat) (p : Parameters) (c : Config)

private theorem ofAction_of_outcome {action : Action Unit} {x : Except Fault Effect}
    (h : action c.state = Action.outcome c.state x) : Outcome.ofAction c action = .ofEffect c x := by
  rw [Outcome.ofAction, h]
  cases x <;> rfl

theorem execute_declareVars :
    execute limits fuel (.declareVars p) c = .ofPartly c.interrupt (declareVars p c.state) := by
  rw [execute, Outcome.ofAction, Action.declareVars_apply]
  rcases declareVars p c.state with ⟨state, _ | fault⟩ <;> rfl

theorem execute_assign :
    execute limits fuel (.assign p) c = .ofEffect c (assign p c.state.store) := by
  rw [execute]
  exact ofAction_of_outcome c (Action.assign_apply p c.state)

theorem execute_arithmetic :
    execute limits fuel (.arithmetic p) c = .ofEffect c (arithmetic p c.state.store) := by
  rw [execute]
  exact ofAction_of_outcome c (Action.arithmetic_apply p c.state)

theorem execute_declareArray : execute limits fuel (.declareArray p) c =
    .ofEffect c (declareArray limits.maxArrayLength p c.state.store) := by
  rw [execute]
  exact ofAction_of_outcome c (Action.declareArray_apply p c.state limits.maxArrayLength)

theorem execute_arrayAccess :
    execute limits fuel (.arrayAccess p) c = .ofEffect c (arrayAccess p c.state.store) := by
  rw [execute]
  exact ofAction_of_outcome c (Action.arrayAccess_apply p c.state)

end Execution

end BlockTrace.Run
