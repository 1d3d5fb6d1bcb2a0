import BlockTrace.Run.Fault

/-! What a run changes: the store, the trace of what was done, and the count of loop iterations. -/
namespace BlockTrace.Run

/-- Something that a run did. Its line is what the trace shows. -/
inductive Event
  | declared (name : String)
  | assigned (name : String) (value : Int32)
  | evaluated (text : String) (value : Int32)
  -- The test of a block with one branch.
  | tested (condition : String) (outcome : Bool)
  -- The test of a block with two branches.
  | branched (condition : String) (outcome : Bool)
  -- The test of a loop.
  | looped (condition : String) (outcome : Bool)
  | arrayDeclared (name : String) (size : Int32)
  | elementRead (name : String) (index value : Int32)
  | elementWritten (name : String) (index value : Int32)
  | halted (fault : Fault)
  -- A line from outside the run.
  | note (line : String)
  deriving DecidableEq, Repr

def truth (outcome : Bool) : String :=
  if outcome then "TRUE" else "FALSE"

def Event.line : Event → String
  | declared name => "Declared variable: " ++ name ++ " = 0"
  | assigned name value => name ++ " = " ++ toString value
  | evaluated text value => "Result: " ++ text ++ " = " ++ toString value
  | tested condition outcome => "Condition '" ++ condition ++ "' is " ++ truth outcome
  | branched condition outcome =>
    "Condition '" ++ condition ++ "' is " ++ truth outcome ++
      if outcome then " (executing if branch)" else " (executing else branch)"
  | looped condition outcome => "While condition '" ++ condition ++ "' is " ++ truth outcome
  | arrayDeclared name size => "Declared array: " ++ name ++ "[" ++ toString size ++ "]"
  | elementRead name index value => name ++ "[" ++ toString index ++ "] = " ++ toString value
  | elementWritten name index value =>
    "Set " ++ name ++ "[" ++ toString index ++ "] = " ++ toString value
  | halted fault => "Error: " ++ fault.message
  | note line => line

structure State where
  store : Store := {}
  trace : Array Event := #[]
  halted : Bool := false
  -- Counts all loops together. It exceeds a budget by one at most, so 64 bits hold it for every
  -- budget below `2 ^ 64 - 1`. With that one, or with none, every round that is counted has a line
  -- in the trace, and no trace has so many lines.
  iterations : Nat := 0
  deriving DecidableEq

namespace State

def emit (s : State) (event : Event) : State :=
  { s with trace := s.trace.push event }

def halt (s : State) (fault : Fault) : State :=
  { s with halted := true, trace := s.trace.push (.halted fault) }

def clear (s : State) : State :=
  { s with store := s.store.clear, trace := #[], halted := false, iterations := 0 }

def lines (s : State) : List String :=
  s.trace.toList.map Event.line

theorem clear_eq (s : State) : s.clear = {} := rfl

end State

end BlockTrace.Run
