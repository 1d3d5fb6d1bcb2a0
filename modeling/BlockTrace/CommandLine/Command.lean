import BlockTrace.CommandLine.Arguments
import BlockTrace.Json.Writer
import BlockTrace.Program.Load
import BlockTrace.Run.Session

/-! The commands, and what they write. -/
namespace BlockTrace.CommandLine
open Report (Style)

inductive Command
  | version
  | run (path : String) (limits : Run.Limits) (json : Bool)
  | evaluate (text : String) (vars : Expression.Variables) (style : Style)
  | check (text : String) (vars : Expression.Variables) (style : Style)

def Format.style : Format → Style
  | .dump => .dump
  | .pretty => .pretty
  | .plain => .plain
  | .json => .plain

/-- The variables of a list of bindings, last first: the last binding of a name counts. -/
def variablesOf (bindings : List (String × Int32)) : Expression.Variables :=
  bindings.foldr (fun b vars => vars.insert b.1 b.2) ∅

def Command.ofSettings (verb : Verb) (s : Settings) : Except UsageFault Command :=
  match s.subject with
  | none => .error (.missingSubject verb.subject)
  | some subject =>
    let format := s.format.getD .plain
    match verb with
    | .run =>
      let limits : Run.Limits :=
        { maxIterations := s.maxIterations
          maxArrayLength := s.maxArrayLength.getD ({} : Run.Limits).maxArrayLength }
      .ok (.run subject limits (format = .json))
    | .evaluate => .ok (.evaluate subject (variablesOf s.bindings) format.style)
    | .check => .ok (.check subject (variablesOf s.bindings) format.style)

def Command.ofArguments : List String → Except UsageFault Command
  | [] => .error .missingVerb
  | first :: rest =>
    match Verb.ofName? first with
    | some verb => do Command.ofSettings verb (← collect verb false {} .nothing rest)
    | none =>
      if first = "--version" ∨ "-V".toList.isPrefixOf first.toList then .ok .version
      else if isDashed first.toList then .error (.unexpected first)
      else .error (.unknownVerb first)

def inputFile? (arguments : List String) : Option String :=
  match Command.ofArguments arguments with
  | .ok (.run path _ _) => some path
  | _ => none

structure Output where
  exit : UInt32
  stdout : String := ""
  stderr : String := ""
  deriving DecidableEq, Repr

namespace Exit

def success : UInt32 := 0
def usage : UInt32 := 2
/-- The program, the expression or the condition is at fault. -/
def badInput : UInt32 := 65
/-- The run was aborted. -/
def aborted : UInt32 := 70
/-- The program cannot be read. -/
def unreadable : UInt32 := 101

end Exit

def loadMessage : Program.LoadFault → String
  | .json .malformed => "malformed JSON"
  | .json .truncated => "the text ends too early"
  | .shape fault => fault.message

def printTrace (json : Bool) (lines : List String) : String :=
  if json then String.ofList (Json.writeLines lines) ++ "\n"
  else String.join (lines.map (· ++ "\n"))

def runProgram (limits : Run.Limits) (json : Bool) (source : String) : Output :=
  match Program.load source.toList with
  | .error fault =>
    { exit := Exit.badInput, stderr := "Invalid program: " ++ loadMessage fault ++ "\n" }
  | .ok program =>
    match ({ limits } : Run.Session).run program with
    | none => { exit := Exit.aborted, stderr := "The run does not end.\n" }
    | some after =>
      { exit := if after.state.halted then Exit.aborted else Exit.success
        stdout := printTrace json after.state.lines }

/-- Carries out a command; `read` gives the content of a file, if it can be read. -/
def Command.execute (read : String → Option String) : Command → Output
  | .version => { exit := Exit.success, stdout := "blockwalk 1.0.0\n" }
  | .run path limits json =>
    let running := "Running " ++ Text.quoted path ++ "...\n"
    match read path with
    | none =>
      { exit := Exit.unreadable, stderr := running ++ "Failed to read program " ++ path ++ "\n" }
    | some source =>
      let output := runProgram limits json source
      { output with stderr := running ++ output.stderr }
  | .evaluate text vars style =>
    match Expression.evaluate vars text.toList with
    | .ok value => { exit := Exit.success, stdout := toString value ++ "\n" }
    | .error fault =>
      { exit := Exit.badInput
        stderr := Report.showExpression style "expression" text.toList fault ++ "\n" }
  | .check text vars style =>
    match Condition.evaluate vars text.toList with
    | .ok value =>
      { exit := Exit.success, stdout := (if value then "true" else "false") ++ "\n" }
    | .error fault =>
      { exit := Exit.badInput
        stderr := Report.showCondition style "condition" text.toList fault ++ "\n" }

def respond (read : String → Option String) (arguments : List String) : Output :=
  match Command.ofArguments arguments with
  | .ok command => command.execute read
  | .error fault => { exit := Exit.usage, stderr := fault.message }

end BlockTrace.CommandLine
