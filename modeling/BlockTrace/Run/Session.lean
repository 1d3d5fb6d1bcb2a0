import BlockTrace.Run.Engine

/-! An interpreter that runs one program after another. -/
namespace BlockTrace.Run
open Program (Block)

/-- How many tests of a condition a loop is followed for: one more than a budget allows, and
without a budget as many as a counter of 64 bits can tell apart. -/
def Limits.fuel (limits : Limits) : Nat :=
  match limits.maxIterations with
  | some limit => limit + 1
  | none => 0x10000000000000000

structure Session where
  limits : Limits := {}
  state : State := {}
  -- Whether an interrupt is pending.
  interrupted : Bool := false
  deriving DecidableEq

namespace Session

def interrupt (s : Session) : Session :=
  { s with interrupted := true }

/-- Clears the store and the trace. A pending interrupt stays. -/
def reset (s : Session) : Session :=
  { s with state := s.state.clear }

/-- The session after an outcome: a fault halts the run, and no interrupt outlives it. -/
def conclude (s : Session) : Outcome → Option Session
  | .completed c => some { s with state := c.state, interrupted := false }
  | .aborted fault c => some { s with state := c.state.halt fault, interrupted := false }
  | .unfinished => none

def runFor (fuel : Nat) (s : Session) (program : List Block) : Option Session :=
  let cleared := s.reset
  cleared.conclude (executeAll s.limits fuel program ⟨cleared.state, cleared.interrupted⟩)

/-- Runs a program from a cleared state; a run within a budget always ends. -/
def run (s : Session) (program : List Block) : Option Session :=
  s.runFor s.limits.fuel program

theorem runFor_cleared (fuel : Nat) (s : Session) (program : List Block) :
    s.runFor fuel program = s.conclude (executeAll s.limits fuel program ⟨{}, s.interrupted⟩) := by
  rw [runFor, reset, State.clear_eq]
  rfl

end Session

end BlockTrace.Run
