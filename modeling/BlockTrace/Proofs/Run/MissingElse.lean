import BlockTrace.Proofs.Run.Changes
import BlockTrace.Proofs.Run.Refinement
import Mathlib

/-! A block with one branch is a block with two, of which the second is empty. A program goes the
same way if every missing branch is written out as an empty one, and its trace differs only in the
lines of the blocks that got one. -/
namespace BlockTrace.Program.Block

mutual

/-- The block with an empty second branch wherever there is only one, at every depth. -/
def withElse : Block → Block
  | ifThen p body => ifElse p (withElseAll body) []
  | ifElse p thenBranch elseBranch => ifElse p (withElseAll thenBranch) (withElseAll elseBranch)
  | whileLoop p body => whileLoop p (withElseAll body)
  | declareVars p => declareVars p
  | assign p => assign p
  | arithmetic p => arithmetic p
  | declareArray p => declareArray p
  | arrayAccess p => arrayAccess p

def withElseAll : List Block → List Block
  | [] => []
  | block :: rest => withElse block :: withElseAll rest

end

private theorem withElse_ne_whileLoop {block : Block} (h : ∀ p body, block ≠ whileLoop p body)
    (p : Parameters) (body : List Block) : block.withElse ≠ whileLoop p body := by
  cases block with
  | whileLoop q inner => exact absurd rfl (h q inner)
  | _ => simp [withElse]

end BlockTrace.Program.Block

namespace BlockTrace.Run
open Program (Block Parameters)

/-- The event that takes its place when the block has a second branch. -/
def Event.withElse : Event → Event
  | tested condition outcome => branched condition outcome
  | event => event

def State.withElse (s : State) : State :=
  { s with trace := s.trace.map Event.withElse }

def Config.withElse (c : Config) : Config :=
  { c with state := c.state.withElse }

def Advance.withElse : Advance → Advance
  | .fail fault c => .fail fault c.withElse
  | .go front c => .go (Block.withElseAll front) c.withElse

def Outcome.withElse : Outcome → Outcome
  | .completed c => .completed c.withElse
  | .aborted fault c => .aborted fault c.withElse
  | .unfinished => .unfinished

def Session.withElse (s : Session) : Session :=
  { s with state := s.state.withElse }

section Configs
variable {limit : Nat} {effect : Effect}

theorem Config.emit_withElse (c : Config) (event : Event) :
    c.withElse.emit event.withElse = (c.emit event).withElse := by
  simp [emit, State.emit, withElse, State.withElse]

/-- No effect is the test of a block. -/
theorem Effect.Lawful.event_withElse {store : Store} (h : effect.Lawful limit store) :
    effect.event.withElse = effect.event := by
  cases h <;> rfl

theorem State.apply_withElse {s : State} (h : effect.Lawful limit s.store) :
    s.withElse.apply effect = (s.apply effect).withElse := by
  simp [apply, withElse, h.event_withElse]

private theorem State.halt_withElse (s : State) (fault : Fault) :
    s.withElse.halt fault = (s.halt fault).withElse := by
  simp [halt, withElse, Event.withElse]

/-- The check before a round sees no trace. -/
theorem beginIteration_withElse (limits : Limits) (c : Config) :
    beginIteration limits c.withElse =
      ((beginIteration limits c).1.withElse, (beginIteration limits c).2) := by
  unfold beginIteration
  cases hi : c.interrupt with
  | true => simp [Config.withElse, hi]
  | false =>
    cases limits.maxIterations with
    | none => simp [Config.withElse, State.withElse, hi]
    | some limit =>
      by_cases hl : c.state.iterations + 1 ≤ limit
      · simp [Config.withElse, State.withElse, hi, hl]
      · simp [Config.withElse, State.withElse, hi, hl]

private theorem declareEach_withElse (names : List String) (s : State) :
    declareEach names s.withElse = ((declareEach names s).1.withElse, (declareEach names s).2) := by
  induction names generalizing s with
  | nil => rfl
  | cons name rest ih =>
    have hs : s.withElse.store = s.store := rfl
    rw [declareEach, declareEach, hs]
    cases hd : declareName name s.store with
    | error fault => rfl
    | ok effect =>
      have hl : effect.Lawful 0 s.store := declareName_lawful hd
      dsimp only
      rw [State.apply_withElse hl]
      exact ih (s.apply effect)

private theorem declareVars_withElse (p : Parameters) (s : State) :
    declareVars p s.withElse = ((declareVars p s).1.withElse, (declareVars p s).2) := by
  unfold declareVars
  cases require p .names with
  | error fault => rfl
  | ok names => exact declareEach_withElse (listedNames names) s

end Configs

section Blocks
variable {block : Block} {c : Config}

private theorem ofEffect_withElse (limit : Nat) {x : Except Fault Effect}
    (h : ∀ effect, x = .ok effect → effect.Lawful limit c.state.store) :
    Advance.ofEffect c.withElse x = (Advance.ofEffect c x).withElse := by
  cases x with
  | error fault => rfl
  | ok effect =>
    simp only [Advance.ofEffect, Advance.withElse, Config.apply, Config.withElse,
      State.apply_withElse (h effect rfl), Block.withElseAll]

private theorem ofPartly_withElse (interrupt : Bool) (x : State × Option Fault) :
    Advance.ofPartly interrupt (x.1.withElse, x.2) = (Advance.ofPartly interrupt x).withElse := by
  obtain ⟨s, _ | fault⟩ := x
  · simp only [Advance.ofPartly, Advance.withElse, Config.withElse, Block.withElseAll]
  · rfl

/-- One block that is no loop does the same with an empty second branch. -/
theorem advance_withElse (limits : Limits) (c : Config)
    (h : ∀ p body, block ≠ .whileLoop p body) :
    advance limits block.withElse c.withElse = (advance limits block c).withElse := by
  cases block with
  | declareVars p =>
    simp only [Block.withElse, advance_declareVars]
    exact (congrArg _ (declareVars_withElse p c.state)).trans (ofPartly_withElse _ _)
  | assign p =>
    simp only [Block.withElse, advance_assign]
    exact ofEffect_withElse 0 fun _ => assign_lawful
  | arithmetic p =>
    simp only [Block.withElse, advance_arithmetic]
    exact ofEffect_withElse 0 fun _ => arithmetic_lawful
  | declareArray p =>
    simp only [Block.withElse, advance_declareArray]
    exact ofEffect_withElse limits.maxArrayLength fun _ => declareArray_lawful
  | arrayAccess p =>
    simp only [Block.withElse, advance_arrayAccess]
    exact ofEffect_withElse 0 fun _ => arrayAccess_lawful
  | ifThen p body =>
    have hs : c.withElse.state.store = c.state.store := rfl
    simp only [Block.withElse, advance, hs]
    rcases decideCondition p c.state.store with fault | ⟨condition, _ | _⟩
    · rfl
    · simp only [Advance.withElse, Block.withElseAll, ← Config.emit_withElse, Event.withElse]
    · simp only [Advance.withElse, ← Config.emit_withElse, Event.withElse]
  | ifElse p thenBranch elseBranch =>
    have hs : c.withElse.state.store = c.state.store := rfl
    simp only [Block.withElse, advance, hs]
    rcases decideCondition p c.state.store with fault | ⟨condition, _ | _⟩
    · rfl
    · simp only [Advance.withElse, ← Config.emit_withElse, Event.withElse]
    · simp only [Advance.withElse, ← Config.emit_withElse, Event.withElse]
  | whileLoop p body => exact absurd rfl (h p body)

theorem Outcome.andThen_withElse {o : Outcome} {next next' : Config → Outcome}
    (h : ∀ c : Config, next' c.withElse = (next c).withElse) :
    o.withElse.andThen next' = (o.andThen next).withElse := by
  cases o with
  | completed c => exact h c
  | aborted fault c => rfl
  | unfinished => rfl

/-- The rounds of a loop are the same if its body does the same. -/
theorem repeatWhile_withElse {body body' : Config → Outcome} (limits : Limits) (condition : String)
    (hb : ∀ c : Config, body' c.withElse = (body c).withElse) (fuel : Nat) (c : Config) :
    repeatWhile limits condition body' fuel c.withElse =
      (repeatWhile limits condition body fuel c).withElse := by
  induction fuel generalizing c with
  | zero => rfl
  | succ fuel ih =>
    have hs : c.withElse.state.store = c.state.store := rfl
    rw [repeatWhile_succ, repeatWhile_succ, hs, beginIteration_withElse]
    cases test c.state.store condition with
    | error fault => rfl
    | ok holds =>
      cases holds with
      | false => exact congrArg Outcome.completed (Config.emit_withElse c (.looped condition false))
      | true =>
        rcases beginIteration limits c with ⟨d, _ | fault⟩
        · have he := Config.emit_withElse d (.looped condition true)
          simp only [Event.withElse] at he
          dsimp only
          rw [he, hb]
          exact Outcome.andThen_withElse ih
        · rfl

/-- With the same fuel, blocks come to the same end. -/
theorem executeAll_withElse (limits : Limits) (fuel : Nat) (blocks : List Block) (c : Config) :
    executeAll limits fuel (Block.withElseAll blocks) c.withElse =
      (executeAll limits fuel blocks c).withElse := by
  refine blocks_induction
    (P := fun blocks => ∀ c : Config, executeAll limits fuel (Block.withElseAll blocks) c.withElse =
      (executeAll limits fuel blocks c).withElse)
    (Q := fun block => ∀ c : Config, execute limits fuel block.withElse c.withElse =
      (execute limits fuel block c).withElse)
    ?_ ?_ ?_ ?_ blocks c
  · intro c
    rw [Block.withElseAll, executeAll_nil, executeAll_nil]
    rfl
  · intro block rest hb hr c
    rw [Block.withElseAll, executeAll_cons, executeAll_cons, hb]
    exact Outcome.andThen_withElse hr
  · intro p body hb c
    rw [Block.withElse, execute, execute]
    cases require p .condition with
    | error fault => rfl
    | ok condition => exact repeatWhile_withElse limits condition hb fuel c
  -- Any block but a loop is one step, which leaves the same blocks in front up to the translation.
  · intro block hk hf c
    rw [execute_eq_finish limits fuel c block hk,
      execute_eq_finish limits fuel c.withElse _ (Program.Block.withElse_ne_whileLoop hk),
      advance_withElse limits c hk]
    cases ha : advance limits block c with
    | fail fault d => rfl
    | go front d => exact hf front (mem_fronts_of_advance ha) d

end Blocks

namespace Session
variable {s t t' : Session} {program : List Block}

theorem runFor_withElse (s : Session) (fuel : Nat) (program : List Block) :
    s.runFor fuel (Block.withElseAll program) = (s.runFor fuel program).map withElse := by
  have hc : Config.withElse ⟨{}, s.interrupted⟩ = ⟨{}, s.interrupted⟩ := by
    simp [Config.withElse, State.withElse]
  have hx := executeAll_withElse s.limits fuel program ⟨{}, s.interrupted⟩
  rw [hc] at hx
  rw [runFor_cleared, runFor_cleared, hx]
  cases executeAll s.limits fuel program ⟨{}, s.interrupted⟩ with
  | completed c => rfl
  | aborted fault c =>
    simp only [Outcome.withElse, conclude, Option.map_some, withElse, Config.withElse,
      State.halt_withElse]
  | unfinished => rfl

/-- How `t'` stands to `t`: it is what the same program leaves, with an empty second branch for
every block that has only one. -/
structure EndsWithElse (t t' : Session) : Prop where
  store : t'.state.store = t.state.store
  halted : t'.state.halted = t.state.halted
  fault : ∀ fault, t'.AbortedBy fault ↔ t.AbortedBy fault
  iterations : t'.state.iterations = t.state.iterations
  length : t'.state.lines.length = t.state.lines.length
  -- A block that had one branch says at the end of its line which one it takes.
  tested : ∀ (i : Nat) condition outcome, t.state.trace[i]? = some (.tested condition outcome) →
    t'.state.lines[i]? = some ((Event.tested condition outcome).line ++
      if outcome then " (executing if branch)" else " (executing else branch)")
  others : ∀ (i : Nat) event, t.state.trace[i]? = some event →
    (∀ condition outcome, event ≠ .tested condition outcome) → t'.state.lines[i]? = some event.line

private theorem abortedBy_withElse (t : Session) (fault : Fault) :
    t.withElse.AbortedBy fault ↔ t.AbortedBy fault := by
  have he : ∀ event : Event, event.withElse = .halted fault ↔ event = .halted fault := by
    intro event
    cases event <;> simp [Event.withElse]
  simp [AbortedBy, withElse, State.withElse, Array.back?_map, he]

theorem getElem?_lines_withElse (t : Session) (i : Nat) :
    t.withElse.state.lines[i]? = t.state.trace[i]?.map fun event => event.withElse.line := by
  simp [State.lines, withElse, State.withElse, Function.comp_def]

private theorem endsWithElse_withElse (t : Session) : t.EndsWithElse t.withElse where
  store := rfl
  halted := rfl
  fault := abortedBy_withElse t
  iterations := rfl
  length := by simp [State.lines, withElse, State.withElse]
  tested := by
    intro i condition outcome h
    rw [getElem?_lines_withElse, h]
    rfl
  others := by
    intro i event h hn
    have he : event.withElse = event := by
      cases event with
      | tested condition outcome => exact absurd rfl (hn condition outcome)
      | _ => rfl
    rw [getElem?_lines_withElse, h, Option.map_some, he]

theorem ends_withElse_iff :
    s.Ends (Block.withElseAll program) t' ↔ ∃ t, s.Ends program t ∧ t' = t.withElse := by
  constructor
  · rintro ⟨fuel, h⟩
    rw [runFor_withElse] at h
    obtain ⟨t, ht, rfl⟩ := Option.map_eq_some_iff.1 h
    exact ⟨t, ⟨fuel, ht⟩, rfl⟩
  · rintro ⟨t, ⟨fuel, h⟩, rfl⟩
    exact ⟨fuel, by rw [runFor_withElse, h, Option.map_some]⟩

private theorem ends_unique (h : s.Ends program t) (h' : s.Ends program t') : t = t' := by
  obtain ⟨fuel, h⟩ := h
  obtain ⟨fuel', h'⟩ := h'
  have hm := runFor_mono h (Nat.le_max_left fuel fuel')
  have hm' := runFor_mono h' (Nat.le_max_right fuel fuel')
  exact Option.some.inj (hm.symm.trans hm')

end Session

/-- A missing second branch is an empty one. If it is written out wherever it is missing, a run ends
exactly if it did before, with the same store, the same fault, if any, and the same count of
iterations. Its lines are equally many and, one by one, the same, but that the line of a block that
had one branch says which branch is executed. -/
theorem missing_else_is_empty (s : Session) (program : List Block) :
    ((∃ t', s.Ends (Block.withElseAll program) t') ↔ ∃ t, s.Ends program t) ∧
    ((s.run (Block.withElseAll program)).isSome ↔ (s.run program).isSome) ∧
    ∀ t t', s.Ends program t → s.Ends (Block.withElseAll program) t' → t.EndsWithElse t' := by
  refine ⟨⟨?_, ?_⟩, ?_, ?_⟩
  · rintro ⟨t', h⟩
    obtain ⟨t, ht, -⟩ := Session.ends_withElse_iff.1 h
    exact ⟨t, ht⟩
  · rintro ⟨t, h⟩
    exact ⟨t.withElse, Session.ends_withElse_iff.2 ⟨t, h, rfl⟩⟩
  · rw [Session.run, Session.runFor_withElse, Option.isSome_map, Session.run]
  · intro t t' h h'
    obtain ⟨u, hu, rfl⟩ := Session.ends_withElse_iff.1 h'
    obtain rfl := Session.ends_unique h hu
    exact Session.endsWithElse_withElse t

/-- In the second round of the loop the condition holds, and the body fails. -/
theorem missing_else_is_empty_in_loop :
    ∃ t t', Session.run {}
        [.declareNames "x",
          .loop "x < 2" [.when "x == 1" [.evaluate "1 / 0"], .assignTo "x" "x + 1"]] = some t ∧
      Session.run {}
        [.declareNames "x",
          .loop "x < 2" [.choose "x == 1" [.evaluate "1 / 0"] [], .assignTo "x" "x + 1"]] =
        some t' ∧
      t'.state.lines[2]? = some "Condition 'x == 1' is FALSE (executing else branch)" ∧
      t'.state.lines[4]? = some "While condition 'x < 2' is TRUE" ∧
      t'.state.lines[5]? = some "Condition 'x == 1' is TRUE (executing if branch)" ∧
      t'.AbortedBy (.expression ⟨.divisionByZero, ⟨4, 1⟩⟩) := by
  obtain ⟨-, hs, hl⟩ := missing_else_is_empty {}
    [.declareNames "x",
      .loop "x < 2" [.when "x == 1" [.evaluate "1 / 0"], .assignTo "x" "x + 1"]]
  have hr : (Session.run {}
      [.declareNames "x",
        .loop "x < 2" [.when "x == 1" [.evaluate "1 / 0"], .assignTo "x" "x + 1"]]).map
      (fun t => (t.state.halted, t.state.trace)) =
      some (true, #[.declared "x", .looped "x < 2" true, .tested "x == 1" false, .assigned "x" 1,
        .looped "x < 2" true, .tested "x == 1" true,
        .halted (.expression ⟨.divisionByZero, ⟨4, 1⟩⟩)]) := by
    cbv
  obtain ⟨t, ht, he⟩ := Option.map_eq_some_iff.1 hr
  obtain ⟨hh, he⟩ : t.state.halted = true ∧ t.state.trace = _ := Prod.mk.injEq .. ▸ he
  obtain ⟨t', ht'⟩ := Option.isSome_iff_exists.1 (hs.2 (by rw [ht]; rfl))
  have h := hl t t' ⟨_, ht⟩ ⟨_, ht'⟩
  refine ⟨t, t', ht, ht', ?_, ?_, ?_, (h.fault _).2 ⟨hh, by rw [he]; rfl⟩⟩
  · rw [h.tested 2 "x == 1" false (by rw [he]; rfl)]
    decide
  · rw [h.others 4 (.looped "x < 2" true) (by rw [he]; rfl) (by simp)]
    decide
  · rw [h.tested 5 "x == 1" true (by rw [he]; rfl)]
    decide

end BlockTrace.Run
