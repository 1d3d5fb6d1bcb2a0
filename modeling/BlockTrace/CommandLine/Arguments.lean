import BlockTrace.Report.Faults
import BlockTrace.Text.Control
import BlockTrace.Text.Numeral

/-! The arguments of the command line: a verb, one subject and options with values. -/
namespace BlockTrace.CommandLine

inductive Verb
  | run
  | evaluate
  | check
  deriving DecidableEq, Repr

inductive Flag
  | maxIterations
  | maxArrayLength
  | var
  | format
  deriving DecidableEq, Repr

inductive Format
  | plain
  | json
  | dump
  | pretty
  deriving DecidableEq, Repr

namespace Verb

def ofName? : String → Option Verb
  | "run" => some run
  | "evaluate" => some evaluate
  | "check" => some check
  | _ => none

def flags : Verb → List Flag
  | run => [.maxIterations, .maxArrayLength, .format]
  | evaluate => [.var, .format]
  | check => [.var, .format]

def subject : Verb → String
  | run => "<PATH>"
  | evaluate => "<EXPRESSION>"
  | check => "<CONDITION>"

def format? : Verb → String → Option Format
  | run, "basic" => some .plain
  | run, "json" => some .json
  | run, _ => none
  | _, "debug" => some .dump
  | _, "basic" => some .plain
  | _, "pretty" => some .pretty
  | _, _ => none

end Verb

namespace Flag

def spelling : Flag → String
  | maxIterations => "--max-iterations"
  | maxArrayLength => "--max-array-length"
  | var => "--var"
  | format => "--format"

def usage : Flag → String
  | maxIterations => "--max-iterations <MAX_ITERATIONS>"
  | maxArrayLength => "--max-array-length <MAX_ARRAY_LENGTH>"
  | var => "--var <VARIABLES>"
  | format => "--format <FORMAT>"

end Flag

inductive UsageFault
  | missingVerb
  | unknownVerb (name : String)
  | unexpected (argument : String)
  | missingSubject (name : String)
  | missingValue (usage : String)
  | repeated (flag : Flag)
  | invalidValue (value : String) (flag : Flag) (reason : Option String)
  deriving DecidableEq, Repr

/-- The message in parts, of which every second one is set off from the text around it. -/
def UsageFault.parts : UsageFault → List String
  | missingVerb => ["error:", " a subcommand is required"]
  | unknownVerb name => ["error:", " unrecognized subcommand '", name, "'"]
  | unexpected argument => ["error:", " unexpected argument '", argument, "' found"]
  | missingSubject name =>
    ["error:", " the following required arguments were not provided:\n  ", name, ""]
  | missingValue usage =>
    ["error:", " a value is required for '", usage, "' but none was supplied"]
  | repeated flag => ["error:", " the argument '", flag.usage, "' cannot be used multiple times"]
  | invalidValue value flag reason =>
    ["error:", " invalid value '", value, "' for '", flag.usage,
      match reason with
      | some text => "': " ++ text
      | none => "'"]

/-- Ends the last part with a hint and its emphasis. -/
def withHint : List String → List String
  | [] => []
  | [last] => [last ++ "\n\nFor more information, try '", "--help", "'.\n"]
  | part :: next :: more => part :: withHint (next :: more)

/-- The message, which ends with a line break. Emphasis begins and ends with a control sequence, so
that a sequence from outside ends with the part that holds it. -/
def UsageFault.message (fault : UsageFault) : String :=
  String.join ((withHint fault.parts).map Text.plain)

structure Settings where
  subject : Option String := none
  maxIterations : Option Nat := none
  maxArrayLength : Option Nat := none
  format : Option Format := none
  -- The variables with their values, last first.
  bindings : List (String × Int32) := []
  deriving DecidableEq, Repr

/-- Reads `NAME=VALUE`, with blanks allowed around both. -/
def binding (text : String) : Except String (String × Int32) :=
  match Text.cutAt? '=' text.toList with
  | none => .error ("expected NAME=VALUE but got `" ++ text ++ "`")
  | some (name, value) =>
    match Text.readSigned (Text.trim value) with
    | .ok n => .ok (String.ofList (Text.trim name), n)
    | .error fault =>
      .error ("invalid value for `" ++ String.ofList name ++ "`: " ++ fault.message)

def count (flag : Flag) (value : String) : Except UsageFault Nat :=
  (Text.readUnsigned 0xFFFFFFFFFFFFFFFF value.toList).mapError fun fault =>
    .invalidValue value flag (some fault.message)

namespace Settings

def has (s : Settings) : Flag → Bool
  | .maxIterations => s.maxIterations.isSome
  | .maxArrayLength => s.maxArrayLength.isSome
  | .format => s.format.isSome
  | .var => false

/-- Takes the value of an option. That the option occurred before counts more than the value. -/
def store (verb : Verb) (s : Settings) (flag : Flag) (value : String) :
    Except UsageFault Settings :=
  if s.has flag then .error (.repeated flag)
  else
    match flag with
    | .maxIterations => do return { s with maxIterations := some (← count flag value) }
    | .maxArrayLength => do return { s with maxArrayLength := some (← count flag value) }
    | .var =>
      match binding value with
      | .ok b => .ok { s with bindings := b :: s.bindings }
      | .error reason => .error (.invalidValue value flag (some reason))
    | .format =>
      match verb.format? value with
      | some format => .ok { s with format := some format }
      | none =>
        if value.isEmpty then .error (.missingValue flag.usage)
        else .error (.invalidValue value flag none)

/-- Takes the subject; a path may not be empty. -/
def storeSubject (verb : Verb) (s : Settings) (value : String) : Except UsageFault Settings :=
  if verb = .run ∧ value.isEmpty then .error (.missingValue verb.subject)
  else .ok { s with subject := some value }

end Settings

/-- An argument that is not judged before the next one has found its place. -/
inductive Pending
  | nothing
  | flag (flag : Flag)
  | value (flag : Flag) (value : String)
  | subject (value : String)
  deriving DecidableEq, Repr

def settle (verb : Verb) (s : Settings) : Pending → Except UsageFault Settings
  | .nothing => .ok s
  | .flag flag => .error (.missingValue flag.usage)
  | .value flag value => s.store verb flag value
  | .subject value => s.storeSubject verb value

/-- Whether an argument looks like an option. A single dash does not. -/
def isDashed (argument : List Char) : Bool :=
  match argument with
  | '-' :: _ :: _ => true
  | _ => false

def named (argument : String) : String × Option String :=
  match Text.cutAt? '=' argument.toList with
  | some (name, value) => (String.ofList name, some (String.ofList value))
  | none => (argument, none)

def placeSubject (verb : Verb) (s : Settings) (pending : Pending) (argument : String) :
    Except UsageFault (Settings × Pending) :=
  match s.subject, pending with
  | some _, _ => .error (.unexpected argument)
  | none, .subject _ => .error (.unexpected argument)
  | none, _ => do return (← settle verb s pending, .subject argument)

def placeOption (verb : Verb) (s : Settings) (pending : Pending) (argument : String) :
    Except UsageFault (Settings × Pending) :=
  let (name, attached) := named argument
  match verb.flags.find? fun flag => flag.spelling = name with
  | none => .error (.unexpected argument)
  | some flag => do
    let s ← settle verb s pending
    match attached with
    | some value => return (← s.store verb flag value, .nothing)
    | none => return (s, .flag flag)

/-- Goes through the arguments; after `--` none of them is an option. -/
def collect (verb : Verb) : (ended : Bool) → Settings → Pending → List String →
    Except UsageFault Settings
  | _, s, pending, [] => settle verb s pending
  | true, s, pending, argument :: rest => do
    let (s, pending) ← placeSubject verb s pending argument
    collect verb true s pending rest
  | false, s, pending, argument :: rest =>
    if argument = "--" then collect verb true s pending rest
    else if isDashed argument.toList then do
      let (s, pending) ← placeOption verb s pending argument
      collect verb false s pending rest
    else
      match pending with
      | .flag flag => collect verb false s (.value flag argument) rest
      | _ => do
        let (s, pending) ← placeSubject verb s pending argument
        collect verb false s pending rest

end BlockTrace.CommandLine
