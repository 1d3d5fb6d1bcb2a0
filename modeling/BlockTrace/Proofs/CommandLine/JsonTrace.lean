import BlockTrace.CommandLine.Command
import BlockTrace.Proofs.Json.Documents
import BlockTrace.Proofs.Json.Written
import BlockTrace.Proofs.Run.Budget
import Mathlib

/-! The trace that the command line prints as JSON. A reader of JSON gets the lines of the run back
from it, whatever characters they hold, and the exit code says how the run ended. -/
namespace BlockTrace.Run
open Program (Block)

theorem State.rounds_le_size (s : State) : s.rounds ≤ s.trace.size :=
  List.countP_le_length

/-- A run that ends is followed to its end: a budget is fuel enough, and without one the fuel lasts
for every trace whose lines can be counted with 64 bits. -/
theorem Session.run_of_ends {s t : Session} {program : List Block} (h : s.Ends program t)
    (hs : s.limits.maxIterations = none → t.state.trace.size < 2 ^ 64) :
    s.run program = some t := by
  cases hl : s.limits.maxIterations with
  | none =>
    obtain ⟨result, c, ⟨n, hn⟩, rfl⟩ := ends_iff.1 h
    have hr : c.state.rounds = (s.after result c).state.rounds := by
      cases result with
      | none => rfl
      | some fault => exact (rounds_halt c.state fault).symm
    have hc : c.state.rounds < 2 ^ 64 + ({} : State).rounds := by
      have hle := (s.after result c).state.rounds_le_size
      have hlt := hs hl
      omega
    rw [run, Limits.fuel, hl]
    exact runFor_eq_some_iff.2 ⟨result, c, executeAll_of_rounds hn hc, rfl⟩
  | some limit =>
    obtain ⟨fuel, hf⟩ := h
    obtain ⟨result, c, hx⟩ := executeAll_of_budget hl program
    have hb : s.run program = some (s.after result c) := by
      rw [run, Limits.fuel, hl]
      exact runFor_eq_some_iff.2 ⟨result, c, hx (limit + 1) (Nat.lt_succ_self limit), rfl⟩
    have hm := runFor_mono hb (Nat.le_max_left s.limits.fuel fuel)
    rw [runFor_mono hf (Nat.le_max_right s.limits.fuel fuel)] at hm
    rw [hb, hm]

end BlockTrace.Run

namespace BlockTrace.CommandLine
open Json (Document)

/-- The output tells how a run ended: the standard output is one document, which reads as the lines
of the trace and as nothing else, and the exit code is that of an aborted run exactly if the run
halted. -/
structure Output.Shows (output : Output) (after : Run.Session) : Prop where
  document : ∀ v, Document output.stdout.toList v ↔ v = .array (after.state.lines.map .string)
  parsed : Json.parse output.stdout.toList = .ok (.array (after.state.lines.map .string))
  exit : output.exit = if after.state.halted then 70 else 0

section Run
variable {read : String → Option String} {arguments : List String} {path source : String}
  {limits : Run.Limits} {json : Bool}

/-- What a run command leaves behind depends on the content of its file alone, but for the messages
on the error output. -/
theorem respond_of_run (ha : Command.ofArguments arguments = .ok (.run path limits json))
    (hr : read path = some source) :
    (respond read arguments).exit = (runProgram limits json source).exit ∧
      (respond read arguments).stdout = (runProgram limits json source).stdout := by
  simp [respond, ha, Command.execute, hr]

private theorem toList_printTrace (lines : List String) :
    (printTrace true lines).toList = Json.writeLines lines ++ ['\n'] := by
  simp [printTrace]

theorem parse_printTrace (lines : List String) :
    Json.parse (printTrace true lines).toList = .ok (.array (lines.map .string)) := by
  have hb : Json.Blanks ['\n'] := by simp [Json.Blanks, Json.isSpace]
  rw [toList_printTrace, Json.parse_eq_ok_iff]
  exact Json.document_writeLines lines hb

private theorem document_printTrace_iff (lines : List String) (v : Json.Value) :
    Document (printTrace true lines).toList v ↔ v = .array (lines.map .string) := by
  rw [← Json.parse_eq_ok_iff, parse_printTrace]
  constructor
  · rintro ⟨rfl⟩
    rfl
  · rintro rfl
    rfl

private theorem runProgram_of_run {program : List Program.Block} {after : Run.Session}
    (hp : Program.load source.toList = .ok program)
    (hx : ({ limits } : Run.Session).run program = some after) :
    runProgram limits json source =
      { exit := if after.state.halted then Exit.aborted else Exit.success
        stdout := printTrace json after.state.lines } := by
  simp [runProgram, hp, hx]

private theorem runProgram_of_error {fault : Program.LoadFault}
    (hp : Program.load source.toList = .error fault) (limits : Run.Limits) (json : Bool) :
    (runProgram limits json source).exit = Exit.badInput ∧
      (runProgram limits json source).stdout = "" := by
  simp [runProgram, hp]

end Run

/-- The JSON output of a run loses nothing. If the program loads and its run gives a result, then
the output shows that run: its document reads back as the lines of the trace, and the exit code is
70 if the run halted and 0 if not. Every run that ends gives its result, if the lines of a run
without a budget can be counted with 64 bits. If the program does not load, then nothing is printed
and the exit code is 65. -/
theorem json_output_is_lossless (read : String → Option String) (arguments : List String)
    (path source : String) (limits : Run.Limits)
    (ha : Command.ofArguments arguments = .ok (.run path limits true))
    (hr : read path = some source) :
    (∀ program after, Program.load source.toList = .ok program →
      ({ limits } : Run.Session).run program = some after →
        (respond read arguments).Shows after) ∧
    (∀ program after, ({ limits } : Run.Session).Ends program after →
      (limits.maxIterations = none → after.state.trace.size < 2 ^ 64) →
        ({ limits } : Run.Session).run program = some after) ∧
    ∀ fault, Program.load source.toList = .error fault →
      (respond read arguments).stdout = "" ∧ (respond read arguments).exit = 65 := by
  obtain ⟨he, ho⟩ := respond_of_run ha hr
  refine ⟨?_, fun program after => Run.Session.run_of_ends, ?_⟩
  · intro program after hp hx
    rw [runProgram_of_run hp hx] at he ho
    exact {
      document := ho ▸ document_printTrace_iff after.state.lines
      parsed := ho ▸ parse_printTrace after.state.lines
      exit := he }
  · intro fault hp
    obtain ⟨hb, hn⟩ := runProgram_of_error hp limits true
    exact ⟨ho.trans hn, he.trans hb⟩

def tabbedLoop : String :=
  "[\x7b\"kind\":5,\"parameters\":\x7b\"condition\":\"0 <\\t1\"\x7d\x7d]"

/-- The budget stops the loop after one round, and the tab in its condition is read back. -/
theorem tab_in_condition_reads_back :
    (Command.ofArguments ["run", "--max-iterations", "1", "--format=json", "loop.json"] =
        .ok (.run "loop.json" { maxIterations := some 1 } true) ∧
      Program.load tabbedLoop.toList = .ok [.loop "0 <\t1" []]) ∧
    Json.parse (respond (fun _ => some tabbedLoop)
        ["run", "--max-iterations", "1", "--format=json", "loop.json"]).stdout.toList =
      .ok (.array [.string "While condition '0 <\t1' is TRUE",
        .string "Error: Iteration budget of 1 exceeded"]) ∧
    (respond (fun _ => some tabbedLoop)
        ["run", "--max-iterations", "1", "--format=json", "loop.json"]).exit = 70 := by
  have ha : Command.ofArguments
      ["run", "--max-iterations", "1", "--format=json", "loop.json"] =
        .ok (.run "loop.json" { maxIterations := some 1 } true) := rfl
  obtain ⟨hp, hx⟩ : Program.load tabbedLoop.toList = .ok [.loop "0 <\t1" []] ∧
      (Run.Session.run { limits := { maxIterations := some 1 } } [.loop "0 <\t1" []]).map
          (fun t => (t.state.halted, t.state.trace)) =
        some (true, #[.looped "0 <\t1" true, .halted (.budgetExceeded 1)]) :=
    ⟨by cbv, by cbv⟩
  obtain ⟨after, hr, he⟩ := Option.map_eq_some_iff.1 hx
  obtain ⟨hh, ht⟩ := Prod.mk.injEq .. ▸ he
  have hl : after.state.lines = ["While condition '0 <\t1' is TRUE",
      "Error: Iteration budget of 1 exceeded"] := by
    rw [Run.State.lines, ht]
    decide
  have hs := (json_output_is_lossless (fun _ => some tabbedLoop) _ _ _ _ ha rfl).1 _ after hp hr
  exact ⟨⟨ha, hp⟩, by simpa [hl] using hs.parsed, by simpa [hh] using hs.exit⟩

end BlockTrace.CommandLine
