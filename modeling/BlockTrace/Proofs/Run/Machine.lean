import BlockTrace.Proofs.Run.Effects
import Mathlib.Logic.Function.Iterate

/-! A flat machine for programs. It holds the blocks that are still to be executed and takes them
one at a time; a control block is replaced by the blocks that it chooses. -/
namespace BlockTrace.Run
open Program (Block Parameters)

/-- The condition of a control block and its truth. -/
def decideCondition (p : Parameters) (store : Store) : Except Fault (String × Bool) := do
  let condition ← require p .condition
  let holds ← test store condition
  return (condition, holds)

/-- What one block does: it fails, or it leaves blocks that are to be executed before the rest. -/
inductive Advance
  | fail (fault : Fault) (c : Config)
  | go (front : List Block) (c : Config)

def Advance.ofAction (c : Config) (action : Action Unit) : Advance :=
  match action c.state with
  | .ok _ state => .go [] { c with state }
  | .error fault state => .fail fault { c with state }

/-- One block. A loop whose condition holds leaves its body and after it the loop itself. -/
def advance (limits : Limits) : Block → Config → Advance
  | .declareVars p, c => .ofAction c (.declareVars p)
  | .assign p, c => .ofAction c (.assign p)
  | .arithmetic p, c => .ofAction c (.arithmetic p)
  | .ifThen p body, c =>
    match decideCondition p c.state.store with
    | .error fault => .fail fault c
    | .ok (condition, true) => .go body (c.emit (.tested condition true))
    | .ok (condition, false) => .go [] (c.emit (.tested condition false))
  | .ifElse p thenBranch elseBranch, c =>
    match decideCondition p c.state.store with
    | .error fault => .fail fault c
    | .ok (condition, true) => .go thenBranch (c.emit (.branched condition true))
    | .ok (condition, false) => .go elseBranch (c.emit (.branched condition false))
  | .whileLoop p body, c =>
    match decideCondition p c.state.store with
    | .error fault => .fail fault c
    | .ok (condition, false) => .go [] (c.emit (.looped condition false))
    | .ok (condition, true) =>
      match beginIteration limits c with
      | (d, some fault) => .fail fault d
      | (d, none) => .go (body ++ [.whileLoop p body]) (d.emit (.looped condition true))
  | .declareArray p, c => .ofAction c (.declareArray limits.maxArrayLength p)
  | .arrayAccess p, c => .ofAction c (.arrayAccess p)

def Advance.ofEffect (c : Config) : Except Fault Effect → Advance
  | .ok effect => .go [] (c.apply effect)
  | .error fault => .fail fault c

def Advance.ofPartly (interrupt : Bool) : State × Option Fault → Advance
  | (state, none) => .go [] ⟨state, interrupt⟩
  | (state, some fault) => .fail fault ⟨state, interrupt⟩

section Leaves
variable (limits : Limits) (p : Parameters) (c : Config)

private theorem advance_of_outcome {action : Action Unit} {x : Except Fault Effect}
    (h : action c.state = Action.outcome c.state x) : Advance.ofAction c action = .ofEffect c x := by
  rw [Advance.ofAction, h]
  cases x <;> rfl

theorem advance_declareVars :
    advance limits (.declareVars p) c = .ofPartly c.interrupt (declareVars p c.state) := by
  rw [advance, Advance.ofAction, Action.declareVars_apply]
  rcases declareVars p c.state with ⟨state, _ | fault⟩ <;> rfl

theorem advance_assign : advance limits (.assign p) c = .ofEffect c (assign p c.state.store) :=
  advance_of_outcome c (Action.assign_apply p c.state)

theorem advance_arithmetic :
    advance limits (.arithmetic p) c = .ofEffect c (arithmetic p c.state.store) :=
  advance_of_outcome c (Action.arithmetic_apply p c.state)

theorem advance_declareArray : advance limits (.declareArray p) c =
    .ofEffect c (declareArray limits.maxArrayLength p c.state.store) :=
  advance_of_outcome c (Action.declareArray_apply p c.state limits.maxArrayLength)

theorem advance_arrayAccess :
    advance limits (.arrayAccess p) c = .ofEffect c (arrayAccess p c.state.store) :=
  advance_of_outcome c (Action.arrayAccess_apply p c.state)

end Leaves

/-- The lists of blocks that a block may leave. -/
def fronts : Block → List (List Block)
  | .ifThen _ body => [body, []]
  | .ifElse _ thenBranch elseBranch => [thenBranch, elseBranch]
  | .whileLoop p body => [body ++ [.whileLoop p body], []]
  | _ => [[]]

section Induction
variable {P : List Block → Prop} {Q : Block → Prop}

mutual

private theorem block_induction (nil : P [])
    (cons : ∀ block rest, Q block → P rest → P (block :: rest))
    (loop : ∀ p body, P body → Q (.whileLoop p body))
    (plain : ∀ block, (∀ p body, block ≠ .whileLoop p body) → (∀ front ∈ fronts block, P front) →
      Q block) : ∀ block, Q block
  | .declareVars p => plain (.declareVars p) nofun (by simpa [fronts] using nil)
  | .assign p => plain (.assign p) nofun (by simpa [fronts] using nil)
  | .arithmetic p => plain (.arithmetic p) nofun (by simpa [fronts] using nil)
  | .declareArray p => plain (.declareArray p) nofun (by simpa [fronts] using nil)
  | .arrayAccess p => plain (.arrayAccess p) nofun (by simpa [fronts] using nil)
  | .ifThen p body => by
    have hb := blocks_induction nil cons loop plain body
    exact plain (.ifThen p body) nofun (by simpa [fronts] using ⟨hb, nil⟩)
  | .ifElse p thenBranch elseBranch => by
    have ht := blocks_induction nil cons loop plain thenBranch
    have he := blocks_induction nil cons loop plain elseBranch
    exact plain (.ifElse p thenBranch elseBranch) nofun (by simpa [fronts] using ⟨ht, he⟩)
  | .whileLoop p body => loop p body (blocks_induction nil cons loop plain body)

/-- Induction over programs. A loop is taken with its body; any other block with the lists of blocks
that it may leave. -/
theorem blocks_induction (nil : P []) (cons : ∀ block rest, Q block → P rest → P (block :: rest))
    (loop : ∀ p body, P body → Q (.whileLoop p body))
    (plain : ∀ block, (∀ p body, block ≠ .whileLoop p body) → (∀ front ∈ fronts block, P front) →
      Q block) : ∀ blocks, P blocks
  | [] => nil
  | block :: rest => cons block rest (block_induction nil cons loop plain block)
      (blocks_induction nil cons loop plain rest)

end

end Induction

section Advance
variable {limits : Limits} {block : Block} {front : List Block} {c d : Config}

private theorem front_ofAction {action : Action Unit}
    (h : Advance.ofAction c action = .go front d) : front = [] := by
  unfold Advance.ofAction at h
  split at h
  · cases h
    rfl
  · cases h

theorem mem_fronts_of_advance (h : advance limits block c = .go front d) :
    front ∈ fronts block := by
  cases block with
  | declareVars p => exact List.mem_singleton.2 (front_ofAction h)
  | assign p => exact List.mem_singleton.2 (front_ofAction h)
  | arithmetic p => exact List.mem_singleton.2 (front_ofAction h)
  | declareArray p => exact List.mem_singleton.2 (front_ofAction h)
  | arrayAccess p => exact List.mem_singleton.2 (front_ofAction h)
  | ifThen p body =>
    simp only [advance] at h
    split at h <;> cases h <;> simp [fronts]
  | ifElse p thenBranch elseBranch =>
    simp only [advance] at h
    split at h <;> cases h <;> simp [fronts]
  | whileLoop p body =>
    simp only [advance] at h
    split at h
    · cases h
    · cases h
      simp [fronts]
    · split at h <;> cases h
      simp [fronts]

end Advance

inductive Machine
  | running (pending : List Block) (c : Config)
  -- Stopped at the end of the program, or by a fault.
  | stopped (result : Option Fault) (c : Config)

namespace Machine

def config : Machine → Config
  | running _ c => c
  | stopped _ c => c

/-- Takes the first pending block. A machine that has stopped stays as it is. -/
def step (limits : Limits) : Machine → Machine
  | running [] c => stopped none c
  | running (block :: rest) c =>
    match advance limits block c with
    | .fail fault d => stopped (some fault) d
    | .go front d => running (front ++ rest) d
  | stopped result c => stopped result c

/-- Some number of steps leads from `m` to `m'`. -/
def Reaches (limits : Limits) (m m' : Machine) : Prop :=
  ∃ n, (step limits)^[n] m = m'

section Reaches
variable {limits : Limits} {m m' m'' : Machine} {block : Block} {front rest : List Block}
  {c d : Config} {fault : Fault} {result : Option Fault}

theorem step_of_fail (h : advance limits block c = .fail fault d) :
    step limits (running (block :: rest) c) = stopped (some fault) d := by
  simp [step, h]

theorem step_of_go (h : advance limits block c = .go front d) :
    step limits (running (block :: rest) c) = running (front ++ rest) d := by
  simp [step, h]

theorem Reaches.refl (m : Machine) : Reaches limits m m :=
  ⟨0, rfl⟩

theorem Reaches.head (h : Reaches limits (step limits m) m') : Reaches limits m m' := by
  obtain ⟨n, hn⟩ := h
  exact ⟨n + 1, hn⟩

theorem Reaches.trans (h : Reaches limits m m') (h' : Reaches limits m' m'') :
    Reaches limits m m'' := by
  obtain ⟨n, rfl⟩ := h
  obtain ⟨k, rfl⟩ := h'
  exact ⟨k + n, Function.iterate_add_apply _ k n m⟩

theorem iterate_stopped (limits : Limits) (n : Nat) (result : Option Fault) (c : Config) :
    (step limits)^[n] (stopped result c) = stopped result c :=
  Function.iterate_fixed rfl n

/-- Once the machine has stopped, nothing changes any more. -/
theorem iterate_of_stopped {n k : Nat} (h : (step limits)^[n] m = stopped result c) (hk : n ≤ k) :
    (step limits)^[k] m = stopped result c := by
  obtain ⟨j, rfl⟩ := Nat.exists_eq_add_of_le hk
  rw [Nat.add_comm, Function.iterate_add_apply, h, iterate_stopped]

/-- A machine stops in one way only. -/
theorem stopped_unique {result' : Option Fault} (h : Reaches limits m (stopped result c))
    (h' : Reaches limits m (stopped result' d)) : result = result' ∧ c = d := by
  obtain ⟨n, hn⟩ := h
  obtain ⟨k, hk⟩ := h'
  have he := (iterate_of_stopped hn (Nat.le_max_left n k)).symm.trans
    (iterate_of_stopped hk (Nat.le_max_right n k))
  simpa using he

end Reaches

end Machine

end BlockTrace.Run
