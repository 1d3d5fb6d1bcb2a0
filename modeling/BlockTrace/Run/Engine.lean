import BlockTrace.Program.Block
import BlockTrace.Run.Action

/-! The execution of blocks. A block that fails stops the run at once; what was done before it
stays done. -/
namespace BlockTrace.Run
open Program (Block Parameters)

structure Limits where
  -- How many loop iterations a run may make, all loops together.
  maxIterations : Option Nat := none
  -- How many elements an array may have.
  maxArrayLength : Nat := 0x1000000
  deriving DecidableEq, Repr

structure Config where
  state : State
  interrupt : Bool
  deriving DecidableEq

namespace Config

def emit (c : Config) (event : Event) : Config :=
  { c with state := c.state.emit event }

end Config

/-- How a piece of a program ends. It is `unfinished` if a loop made more rounds than it had fuel
for. -/
inductive Outcome
  | completed (c : Config)
  | aborted (fault : Fault) (c : Config)
  | unfinished
  deriving DecidableEq

/-- The outcome of an action. One that fails leaves what it did before. -/
def Outcome.ofAction (c : Config) (action : Action Unit) : Outcome :=
  match action c.state with
  | .ok _ state => .completed { c with state }
  | .error fault state => .aborted fault { c with state }

/-- The check before a loop iteration: a pending interrupt is taken, otherwise the iteration is
counted and held against the budget. -/
def beginIteration (limits : Limits) (c : Config) : Config × Option Fault :=
  if c.interrupt then ({ c with interrupt := false }, some .interrupted)
  else
    let counted := { c with state := { c.state with iterations := c.state.iterations + 1 } }
    match limits.maxIterations with
    | none => (counted, none)
    | some limit =>
      if counted.state.iterations ≤ limit then (counted, none)
      else (counted, some (.budgetExceeded limit))

/-- Repeats `body` as long as the condition holds, for at most `fuel` tests of the condition. -/
def repeatWhile (limits : Limits) (condition : String) (body : Config → Outcome) :
    (fuel : Nat) → Config → Outcome
  | 0, _ => .unfinished
  | fuel + 1, c =>
    match test c.state.store condition with
    | .error fault => .aborted fault c
    | .ok false => .completed (c.emit (.looped condition false))
    | .ok true =>
      match beginIteration limits c with
      | (d, some fault) => .aborted fault d
      | (d, none) =>
        match body (d.emit (.looped condition true)) with
        | .completed e => repeatWhile limits condition body fuel e
        | other => other

mutual

/-- Executes a block; every loop in it gets `fuel` tests each time it is entered. -/
def execute (limits : Limits) (fuel : Nat) : Block → Config → Outcome
  | .declareVars p, c => .ofAction c (.declareVars p)
  | .assign p, c => .ofAction c (.assign p)
  | .arithmetic p, c => .ofAction c (.arithmetic p)
  | .ifThen p body, c =>
    match require p .condition with
    | .error fault => .aborted fault c
    | .ok condition =>
      match test c.state.store condition with
      | .error fault => .aborted fault c
      | .ok true => executeAll limits fuel body (c.emit (.tested condition true))
      | .ok false => .completed (c.emit (.tested condition false))
  | .ifElse p thenBranch elseBranch, c =>
    match require p .condition with
    | .error fault => .aborted fault c
    | .ok condition =>
      match test c.state.store condition with
      | .error fault => .aborted fault c
      | .ok true => executeAll limits fuel thenBranch (c.emit (.branched condition true))
      | .ok false => executeAll limits fuel elseBranch (c.emit (.branched condition false))
  | .whileLoop p body, c =>
    match require p .condition with
    | .error fault => .aborted fault c
    | .ok condition => repeatWhile limits condition (executeAll limits fuel body) fuel c
  | .declareArray p, c => .ofAction c (.declareArray limits.maxArrayLength p)
  | .arrayAccess p, c => .ofAction c (.arrayAccess p)

def executeAll (limits : Limits) (fuel : Nat) : List Block → Config → Outcome
  | [], c => .completed c
  | block :: rest, c =>
    match execute limits fuel block c with
    | .completed d => executeAll limits fuel rest d
    | other => other

end

end BlockTrace.Run
