import BlockTrace.Proofs.Run.Step
import Mathlib.Logic.Relation

/-! What a run is made of. Every block changes the state by a row of small changes: an operation on
the store together with its event, the outcome of a test, an iteration on the count. What each of
them keeps, a run keeps. -/
namespace BlockTrace.Run
open Program (Block Key Parameters)
open Machine (step Reaches)
open Relation (ReflTransGen)

section Parameters
variable {p : Parameters} {key : Key}

theorem require_eq_ok_iff {text : String} : require p key = .ok text ↔ p.get? key = some text := by
  unfold require
  cases p.get? key <;> simp

theorem requireInteger_eq_ok_iff {value : Int32} {fault : Fault} :
    requireInteger p key fault = .ok value ↔ p.integer? key = some value := by
  unfold requireInteger
  cases p.integer? key <;> simp

end Parameters

section Successes
variable {store : Store} {p : Parameters} {effect : Effect} {limit : Nat}

/-- What a declaration does that succeeds. -/
theorem declareName_cases {name : String} (h : declareName name store = .ok effect) :
    name.isEmpty = false ∧ ∃ after, store.declare name = .ok after ∧
      effect = ⟨after, .declared name⟩ := by
  unfold declareName at h
  split at h
  · cases h
  next he =>
    obtain ⟨after, ha, hr⟩ := bind_eq_ok_iff.1 h
    cases hr
    exact ⟨Bool.eq_false_iff.2 he, after, mapError_eq_ok_iff.1 ha, rfl⟩

/-- What an assignment does that succeeds. -/
theorem assign_cases (h : assign p store = .ok effect) :
    ∃ name text value after, p.get? .varName = some name ∧ p.get? .expression = some text ∧
      evaluate store text = .ok value ∧ store.assign name value = .ok after ∧
      effect = ⟨after, .assigned name value⟩ := by
  obtain ⟨name, hn, h⟩ := bind_eq_ok_iff.1 h
  obtain ⟨text, ht, h⟩ := bind_eq_ok_iff.1 h
  split at h
  · obtain ⟨value, hv, h⟩ := bind_eq_ok_iff.1 h
    obtain ⟨after, ha, hr⟩ := bind_eq_ok_iff.1 h
    cases hr
    exact ⟨name, text, value, after, require_eq_ok_iff.1 hn, require_eq_ok_iff.1 ht, hv,
      mapError_eq_ok_iff.1 ha, rfl⟩
  · cases h

/-- What an evaluation does that succeeds. -/
theorem arithmetic_cases (h : arithmetic p store = .ok effect) :
    ∃ text value, p.get? .expression = some text ∧ evaluate store text = .ok value ∧
      effect = ⟨store, .evaluated text value⟩ := by
  obtain ⟨text, ht, h⟩ := bind_eq_ok_iff.1 h
  obtain ⟨value, hv, hr⟩ := bind_eq_ok_iff.1 h
  cases hr
  exact ⟨text, value, require_eq_ok_iff.1 ht, hv, rfl⟩

/-- What the declaration of an array does that succeeds. -/
theorem declareArray_cases (h : declareArray limit p store = .ok effect) :
    ∃ name size after, p.get? .name = some name ∧ p.integer? .size = some size ∧
      store.declareArray name size limit = .ok after ∧
      effect = ⟨after, .arrayDeclared name size⟩ := by
  obtain ⟨name, hn, h⟩ := bind_eq_ok_iff.1 h
  obtain ⟨size, hs, h⟩ := bind_eq_ok_iff.1 h
  obtain ⟨after, ha, hr⟩ := bind_eq_ok_iff.1 h
  cases hr
  exact ⟨name, size, after, require_eq_ok_iff.1 hn, requireInteger_eq_ok_iff.1 hs,
    mapError_eq_ok_iff.1 ha, rfl⟩

end Successes

/-- The event tells of an operation on the store that succeeds, and the effect has its result. -/
inductive Effect.Lawful (limit : Nat) (store : Store) : Effect → Prop
  | declared {name : String} {after : Store} :
    store.declare name = .ok after → Lawful limit store ⟨after, .declared name⟩
  | assigned {name : String} {value : Int32} {after : Store} :
    store.assign name value = .ok after → Lawful limit store ⟨after, .assigned name value⟩
  | evaluated (text : String) (value : Int32) : Lawful limit store ⟨store, .evaluated text value⟩
  | arrayDeclared {name : String} {size : Int32} {after : Store} :
    store.declareArray name size limit = .ok after →
      Lawful limit store ⟨after, .arrayDeclared name size⟩
  | elementRead {name : String} {index value : Int32} :
    store.read name index = .ok value → Lawful limit store ⟨store, .elementRead name index value⟩
  | elementWritten {name : String} {index value : Int32} {after : Store} :
    store.write name index value = .ok after →
      Lawful limit store ⟨after, .elementWritten name index value⟩

section Actions
variable {store : Store} {p : Parameters} {effect : Effect} {limit : Nat}

theorem declareName_lawful {name : String} (h : declareName name store = .ok effect) :
    effect.Lawful limit store := by
  obtain ⟨-, after, ha, rfl⟩ := declareName_cases h
  exact .declared ha

theorem assign_lawful (h : assign p store = .ok effect) : effect.Lawful limit store := by
  obtain ⟨name, text, value, after, -, -, -, ha, rfl⟩ := assign_cases h
  exact .assigned ha

theorem arithmetic_lawful (h : arithmetic p store = .ok effect) : effect.Lawful limit store := by
  obtain ⟨text, value, -, -, rfl⟩ := arithmetic_cases h
  exact .evaluated text value

theorem declareArray_lawful (h : declareArray limit p store = .ok effect) :
    effect.Lawful limit store := by
  obtain ⟨name, size, after, -, -, ha, rfl⟩ := declareArray_cases h
  exact .arrayDeclared ha

theorem arrayAccess_lawful (h : arrayAccess p store = .ok effect) : effect.Lawful limit store := by
  obtain ⟨name, -, h⟩ := bind_eq_ok_iff.1 h
  obtain ⟨index, -, h⟩ := bind_eq_ok_iff.1 h
  obtain ⟨operation, -, h⟩ := bind_eq_ok_iff.1 h
  obtain ⟨current, hc, h⟩ := bind_eq_ok_iff.1 h
  split at h
  · cases h
    exact .elementRead (mapError_eq_ok_iff.1 hc)
  · split at h
    · obtain ⟨value, -, h⟩ := bind_eq_ok_iff.1 h
      obtain ⟨after, ha, hr⟩ := bind_eq_ok_iff.1 h
      cases hr
      exact .elementWritten (mapError_eq_ok_iff.1 ha)
    · cases h

end Actions

/-- The event is the test of a condition. -/
def Event.isTest : Event → Bool
  | tested .. => true
  | branched .. => true
  | looped .. => true
  | _ => false

/-- The smallest changes of the state in a run that may declare arrays of up to `limit` elements. -/
inductive Change (limit : Nat) : State → State → Prop
  | effect {s : State} {effect : Effect} :
    effect.Lawful limit s.store → Change limit s (s.apply effect)
  | test (s : State) {event : Event} : event.isTest = true → Change limit s (s.emit event)
  | count (s : State) : Change limit s { s with iterations := s.iterations + 1 }

section Changes
variable {limits : Limits} {limit : Nat} {c : Config}

private theorem ofEffect_changes {x : Except Fault Effect}
    (h : ∀ effect, x = .ok effect → effect.Lawful limit c.state.store) :
    ReflTransGen (Change limit) c.state (Advance.ofEffect c x).config.state := by
  cases x with
  | error fault => exact .refl
  | ok effect => exact .single (.effect (h effect rfl))

/-- Also where a name fails, the names before it were declared one after the other. -/
theorem declareEach_changes (names : List String) (s : State) :
    ReflTransGen (Change limit) s (declareEach names s).1 := by
  induction names generalizing s with
  | nil => exact .refl
  | cons name rest ih =>
    rw [declareEach]
    cases hd : declareName name s.store with
    | error fault => exact .refl
    | ok effect => exact .head (.effect (declareName_lawful hd)) (ih (s.apply effect))

private theorem declareVars_changes (p : Parameters) (c : Config) :
    ReflTransGen (Change limit) c.state
      (Advance.ofPartly c.interrupt (declareVars p c.state)).config.state := by
  have hs : ReflTransGen (Change limit) c.state (declareVars p c.state).1 := by
    unfold declareVars
    cases require p .names with
    | error fault => exact .refl
    | ok names => exact declareEach_changes (listedNames names) c.state
  rcases hd : declareVars p c.state with ⟨state, _ | fault⟩
  · rw [hd] at hs
    exact hs
  · rw [hd] at hs
    exact hs

/-- What one block does is a row of changes, whether it fails or not. -/
theorem advance_changes (limits : Limits) (block : Block) (c : Config) :
    ReflTransGen (Change limits.maxArrayLength) c.state
      (advance limits block c).config.state := by
  cases block with
  | declareVars p =>
    rw [advance_declareVars]
    exact declareVars_changes p c
  | assign p =>
    rw [advance_assign]
    exact ofEffect_changes fun _ => assign_lawful
  | arithmetic p =>
    rw [advance_arithmetic]
    exact ofEffect_changes fun _ => arithmetic_lawful
  | declareArray p =>
    rw [advance_declareArray]
    exact ofEffect_changes fun _ => declareArray_lawful
  | arrayAccess p =>
    rw [advance_arrayAccess]
    exact ofEffect_changes fun _ => arrayAccess_lawful
  | ifThen p body | ifElse p thenBranch elseBranch =>
    simp only [advance]
    rcases decideCondition p c.state.store with fault | ⟨condition, _ | _⟩
    · exact .refl
    · exact .single (.test c.state rfl)
    · exact .single (.test c.state rfl)
  | whileLoop p body =>
    simp only [advance]
    rcases decideCondition p c.state.store with fault | ⟨condition, _ | _⟩
    · exact .refl
    · exact .single (.test c.state rfl)
    · have hc : ReflTransGen (Change limits.maxArrayLength) c.state c.count.state :=
        .single (.count c.state)
      rcases beginIteration_cases limits c with ⟨-, hb⟩ | ⟨-, limit, -, -, hb⟩ | ⟨-, -, hb⟩
      · rw [hb]
        exact .refl
      · rw [hb]
        exact hc
      · rw [hb]
        exact hc.tail (.test c.count.state rfl)

private theorem step_changes (limits : Limits) (m : Machine) :
    ReflTransGen (Change limits.maxArrayLength) m.config.state
      (step limits m).config.state := by
  rcases m with ⟨_ | ⟨block, rest⟩, c⟩ | ⟨result, c⟩
  · exact .refl
  · rw [Machine.config_step]
    exact advance_changes limits block c
  · exact .refl

theorem Machine.Reaches.changes {m m' : Machine} (h : Reaches limits m m') :
    ReflTransGen (Change limits.maxArrayLength) m.config.state m'.config.state := by
  obtain ⟨n, rfl⟩ := h
  induction n with
  | zero => exact .refl
  | succ n ih =>
    rw [Function.iterate_succ_apply']
    exact ih.trans (step_changes limits _)

end Changes

end BlockTrace.Run
