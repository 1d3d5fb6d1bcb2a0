import BlockTrace.Proofs.Run.Footprint
import BlockTrace.Proofs.Run.Growth
import Mathlib

/-! A step that fails leaves nothing half done. A block without children fails before it changes
anything, unless it is a list of declarations. A control block fails in its condition or in the
check before a round, with the store and the trace as they were when the condition was looked at. So
an aborted run leaves the store that the steps before the failing one left. -/
namespace BlockTrace.Program

/-- The block has a condition that decides what is executed next. -/
def Block.isControl : Block → Bool
  | ifThen .. => true
  | ifElse .. => true
  | whileLoop .. => true
  | _ => false

end BlockTrace.Program

namespace BlockTrace.Run
open Program (Block Parameters)
open Machine (running stopped step)

/-- Nothing is different but the count of iterations and the interrupt. -/
structure Config.Keeps (c d : Config) : Prop where
  store : d.state.store = c.state.store
  trace : d.state.trace = c.state.trace
  halted : d.state.halted = c.state.halted

/-- How a control block fails where its condition is looked at in `c`, and what it leaves: the
condition is missing or cannot be evaluated, or it is that of a loop and holds, and the check before
the round takes an interrupt or finds the budget spent. -/
inductive Denies (limits : Limits) (block : Block) (c : Config) : Fault → Config → Prop
  | missing : block.parameters.get? .condition = none →
    Denies limits block c (.missingParameter .condition) c
  | undecided {condition : String} {fault : Condition.Fault} :
    block.parameters.get? .condition = some condition →
    Condition.evaluate c.state.store.vars condition.toList = .error fault →
    Denies limits block c (.condition fault) c
  | interrupted : loopHolds block c = true → c.interrupt = true →
    Denies limits block c .interrupted { c with interrupt := false }
  | spent {limit : Nat} : loopHolds block c = true → c.interrupt = false →
    limits.maxIterations = some limit → limit ≤ c.state.iterations →
    Denies limits block c (.budgetExceeded limit) c.count

section Condition
variable {limits : Limits} {block : Block} {c d : Config} {fault : Fault}

theorem Config.Keeps.refl (c : Config) : c.Keeps c :=
  ⟨rfl, rfl, rfl⟩

theorem Denies.keeps (h : Denies limits block c fault d) : c.Keeps d := by
  cases h with
  | missing _ => exact .refl c
  | undecided _ _ => exact .refl c
  | interrupted _ _ => exact ⟨rfl, rfl, rfl⟩
  | spent _ _ _ _ => exact ⟨rfl, rfl, rfl⟩

theorem decideCondition_of_missing {p : Parameters} (h : p.get? .condition = none)
    (store : Store) : decideCondition p store = .error (.missingParameter .condition) := by
  rw [decideCondition, require, h]
  rfl

theorem decideCondition_of_error {p : Parameters} {store : Store} {condition : String}
    {fault : Condition.Fault} (hp : p.get? .condition = some condition)
    (h : Condition.evaluate store.vars condition.toList = .error fault) :
    decideCondition p store = .error (.condition fault) := by
  rw [decideCondition, require_eq_ok_iff.2 hp, ok_bind, test, h]
  rfl

private theorem decideCondition_of_ok {p : Parameters} {store : Store} {condition : String}
    {holds : Bool} (hp : p.get? .condition = some condition)
    (h : Condition.evaluate store.vars condition.toList = .ok holds) :
    decideCondition p store = .ok (condition, holds) := by
  rw [decideCondition, require_eq_ok_iff.2 hp, ok_bind, test, h]
  rfl

theorem advance_of_undecided (hk : block.isControl = true)
    (h : decideCondition block.parameters c.state.store = .error fault) :
    advance limits block c = .fail fault c := by
  cases block with
  | ifThen p body | ifElse p thenBranch elseBranch | whileLoop p body =>
    rw [Block.parameters] at h
    simp only [advance, h]
  | _ => cases hk

private theorem advance_of_decided (limits : Limits) (hk : block.isControl = true)
    (hl : loopHolds block c = false) {condition : String} {holds : Bool}
    (h : decideCondition block.parameters c.state.store = .ok (condition, holds)) :
    ∃ front e, advance limits block c = .go front e := by
  cases block with
  | ifThen p body | ifElse p thenBranch elseBranch =>
    rw [Block.parameters] at h
    simp only [advance, h]
    cases holds <;> exact ⟨_, _, rfl⟩
  | whileLoop p body =>
    rw [Block.parameters] at h
    simp only [loopHolds, h] at hl
    simp only [advance, h, hl]
    exact ⟨_, _, rfl⟩
  | _ => cases hk

/-- A control block fails exactly where its condition is denied. -/
theorem advance_eq_fail_iff (hk : block.isControl = true) :
    advance limits block c = .fail fault d ↔ Denies limits block c fault d := by
  constructor
  · intro h
    cases hl : loopHolds block c with
    | true =>
      rcases advance_round limits hl with ⟨hi, ha⟩ | ⟨hi, limit, hm, hc, ha⟩ | ⟨-, -, _, _, ha⟩
      · cases h.symm.trans ha
        exact .interrupted hl hi
      · cases h.symm.trans ha
        exact .spent hl hi hm hc
      · cases h.symm.trans ha
    | false =>
      cases hp : block.parameters.get? .condition with
      | none =>
        cases h.symm.trans (advance_of_undecided hk (decideCondition_of_missing hp _))
        exact .missing hp
      | some condition =>
        cases he : Condition.evaluate c.state.store.vars condition.toList with
        | error reason =>
          cases h.symm.trans (advance_of_undecided hk (decideCondition_of_error hp he))
          exact .undecided hp he
        | ok holds =>
          obtain ⟨_, _, ha⟩ := advance_of_decided limits hk hl (decideCondition_of_ok hp he)
          cases h.symm.trans ha
  · intro h
    cases h with
    | missing hp => exact advance_of_undecided hk (decideCondition_of_missing hp _)
    | undecided hp he => exact advance_of_undecided hk (decideCondition_of_error hp he)
    | interrupted hl hi =>
      rcases advance_round limits hl with ⟨-, ha⟩ | ⟨hn, -⟩ | ⟨hn, -⟩
      · exact ha
      · cases hi.symm.trans hn
      · cases hi.symm.trans hn
    | @spent limit hl hi hm hc =>
      rcases advance_round limits hl with ⟨hn, -⟩ | ⟨-, other, ho, -, ha⟩ | ⟨-, hlt, -⟩
      · cases hi.symm.trans hn
      · cases hm.symm.trans ho
        exact ha
      · exact absurd (hlt limit hm) (Nat.not_lt.2 hc)

end Condition

/-- The children `inner` of a control block are begun in `d` after its condition was decided in
`c`. -/
inductive Begins (limits : Limits) (c : Config) : Block → List Block → Config → Prop
  | branch {block : Block} {inner : List Block} {d : Config} :
    (∀ p body, block ≠ .whileLoop p body) → advance limits block c = .go inner d →
    Begins limits c block inner d
  | round {p : Parameters} {body : List Block} {d : Config} :
    advance limits (.whileLoop p body) c = .go (body ++ [.whileLoop p body]) d →
    Begins limits c (.whileLoop p body) body d

/-- In the execution of a control block from `c` its condition is looked at in `e`: at first, and
if it is a loop again after every round that is completed. -/
inductive LooksAt (limits : Limits) (fuel : Nat) (block : Block) : Config → Config → Prop
  | first (c : Config) : LooksAt limits fuel block c c
  | again {body : List Block} {c d e f : Config} : (∃ p, block = .whileLoop p body) →
    Begins limits c block body d → executeAll limits fuel body d = .completed e →
    LooksAt limits fuel block e f → LooksAt limits fuel block c f

/-- The block fails where its condition was last looked at, or in its children after that. -/
def FailsFrom (limits : Limits) (fuel : Nat) (block : Block) (e : Config) (fault : Fault)
    (d : Config) : Prop :=
  Denies limits block e fault d ∨
    ∃ inner f, Begins limits e block inner f ∧ executeAll limits fuel inner f = .aborted fault d

section Execution
variable {limits : Limits} {fuel : Nat} {block : Block} {blocks : List Block} {c d : Config}
  {fault : Fault}

theorem ofEffect_eq_aborted {x : Except Fault Effect}
    (h : Outcome.ofEffect c x = .aborted fault d) : d = c := by
  cases x with
  | ok effect => cases h
  | error other =>
    cases h
    rfl

private theorem repeatWhile_eq_aborted {p : Parameters} {body : List Block} {condition : String}
    (hr : require p .condition = .ok condition) (rounds : Nat) (c : Config)
    (h : repeatWhile limits condition (executeAll limits fuel body) rounds c =
      .aborted fault d) :
    ∃ e, LooksAt limits fuel (.whileLoop p body) c e ∧
      FailsFrom limits fuel (.whileLoop p body) e fault d := by
  induction rounds generalizing c with
  | zero => cases h
  | succ rounds ih =>
    have ha := advance_whileLoop limits p c body hr
    rw [repeatWhile_succ] at h
    cases ht : test c.state.store condition with
    | error reason =>
      rw [ht] at h ha
      cases h
      exact ⟨_, .first _, .inl ((advance_eq_fail_iff rfl).1 ha)⟩
    | ok holds =>
      rw [ht] at h ha
      cases holds with
      | false => cases h
      | true =>
        rcases hb : beginIteration limits c with ⟨e, _ | reason⟩
        · rw [hb] at h ha
          dsimp only at h ha
          cases hx : executeAll limits fuel body (e.emit (.looped condition true)) with
          | completed f =>
            rw [hx] at h
            obtain ⟨g, hg, hf⟩ := ih f h
            exact ⟨g, .again ⟨p, rfl⟩ (.round ha) hx hg, hf⟩
          | aborted other f =>
            rw [hx] at h
            cases h
            exact ⟨c, .first c, .inr ⟨body, _, .round ha, hx⟩⟩
          | unfinished =>
            rw [hx] at h
            cases h
        · rw [hb] at h ha
          cases h
          exact ⟨c, .first c, .inl ((advance_eq_fail_iff rfl).1 ha)⟩

/-- A control block that is aborted failed where its condition was looked at for the last time, or
in its children after that. -/
theorem execute_eq_aborted (hk : block.isControl = true)
    (h : execute limits fuel block c = .aborted fault d) :
    ∃ e, LooksAt limits fuel block c e ∧ FailsFrom limits fuel block e fault d := by
  by_cases hw : ∃ p body, block = .whileLoop p body
  · obtain ⟨p, body, rfl⟩ := hw
    rw [execute] at h
    cases hr : require p .condition with
    | error reason =>
      rw [hr] at h
      cases h
      have ha := advance_whileLoop_missing limits p c body hr
      exact ⟨c, .first c, .inl ((advance_eq_fail_iff rfl).1 ha)⟩
    | ok condition =>
      rw [hr] at h
      exact repeatWhile_eq_aborted hr fuel c h
  · have hn : ∀ p body, block ≠ .whileLoop p body := fun p body hb => hw ⟨p, body, hb⟩
    rw [execute_eq_finish limits fuel c block hn] at h
    refine ⟨c, .first c, ?_⟩
    cases ha : advance limits block c with
    | fail other e =>
      rw [ha] at h
      cases h
      exact .inl ((advance_eq_fail_iff hk).1 ha)
    | go inner f =>
      rw [ha] at h
      exact .inr ⟨inner, f, .branch hn ha, h⟩

theorem exists_execute_of_denies {e : Config} (hk : block.isControl = true)
    (hl : LooksAt limits fuel block c e) (h : Denies limits block e fault d) :
    ∃ more, execute limits more block c = .aborted fault d := by
  induction hl with
  | first c =>
    have hb := finish_below_execute limits 0 block c
    rw [(advance_eq_fail_iff hk).2 h] at hb
    exact ⟨1, hb.eq (Outcome.ofResult_ne_unfinished (some fault) d)⟩
  | @again body c f e g hw hb hx _ ih =>
    obtain ⟨more, hm⟩ := ih h
    obtain ⟨p, rfl⟩ := hw
    cases hb with
    | branch hn _ => exact absurd rfl (hn p body)
    | round ha =>
      -- The fuel has to do for the round as well as for what comes after it.
      have hbody : executeAll limits (max fuel more) body f = .ofResult none e :=
        executeAll_of_le (Nat.le_max_left fuel more) hx
      have hrest : executeAll limits (max fuel more) [.whileLoop p body] e =
          .ofResult (some fault) d :=
        executeAll_of_le (Nat.le_max_right fuel more) ((executeAll_singleton ..).trans hm)
      have hfront : executeAll limits (max fuel more) (body ++ [.whileLoop p body]) f =
          .aborted fault d := by
        rw [executeAll_append, hbody]
        exact hrest
      have hstep := finish_below_execute limits (max fuel more) (.whileLoop p body) c
      rw [ha, Advance.finish, hfront] at hstep
      exact ⟨_, hstep.eq (Outcome.ofResult_ne_unfinished (some fault) d)⟩

/-- A block that fails keeps the store and the trace, unless it is a list of declarations. -/
theorem keeps_of_advance (hk : block.kind ≠ .declareVars)
    (h : advance limits block c = .fail fault d) : c.Keeps d := by
  have hleaf : ∀ x, Advance.ofEffect c x = .fail fault d → c.Keeps d := by
    intro x hx
    cases x with
    | ok effect => cases hx
    | error other =>
      cases hx
      exact .refl c
  cases block with
  | declareVars p => exact absurd rfl hk
  | assign p => exact hleaf _ (advance_assign limits p c ▸ h)
  | arithmetic p => exact hleaf _ (advance_arithmetic limits p c ▸ h)
  | declareArray p => exact hleaf _ (advance_declareArray limits p c ▸ h)
  | arrayAccess p => exact hleaf _ (advance_arrayAccess limits p c ▸ h)
  | ifThen p body | ifElse p thenBranch elseBranch | whileLoop p body =>
    exact ((advance_eq_fail_iff rfl).1 h).keeps

private theorem Machine.exists_failing_step {n : Nat}
    (h : (step limits)^[n] (running blocks c) = stopped (some fault) d) :
    ∃ k block rest e, (step limits)^[k] (running blocks c) = running (block :: rest) e ∧
      advance limits block e = .fail fault d := by
  induction n with
  | zero => cases h
  | succ n ih =>
    rw [Function.iterate_succ_apply'] at h
    rcases hm : (step limits)^[n] (running blocks c) with ⟨_ | ⟨block, rest⟩, e⟩ | ⟨result, e⟩
    · rw [hm] at h
      cases h
    · rw [hm] at h
      cases ha : advance limits block e with
      | fail other f =>
        rw [step_of_fail ha] at h
        cases h
        exact ⟨n, block, rest, e, hm, ha⟩
      | go front f =>
        rw [step_of_go ha] at h
        cases h
    · rw [hm] at h
      cases h
      exact ih hm

end Execution

namespace Session
variable {s t : Session} {program : List Block} {n : Nat} {block : Block} {e : Config}
  {fault : Fault}

/-- After `n` steps the run takes the block in `e`, and the block fails. -/
def FailsAt (s : Session) (program : List Block) (n : Nat) (block : Block) (e : Config)
    (fault : Fault) : Prop :=
  ∃ rest d, (step s.limits)^[n] (s.machine program) = running (block :: rest) e ∧
    advance s.limits block e = .fail fault d

theorem FailsAt.stops (h : s.FailsAt program n block e fault) :
    ∃ d, Machine.Reaches s.limits (s.machine program) (stopped (some fault) d) ∧
      advance s.limits block e = .fail fault d := by
  obtain ⟨rest, d, hn, ha⟩ := h
  refine ⟨d, ⟨n + 1, ?_⟩, ha⟩
  rw [Function.iterate_succ_apply', hn, Machine.step_of_fail ha]

theorem halted_iff_failsAt (h : s.Ends program t) :
    t.state.halted = true ↔ ∃ n block e fault, s.FailsAt program n block e fault := by
  obtain ⟨result, c, hr, rfl⟩ := ends_iff.1 h
  constructor
  · intro hh
    cases result with
    | none =>
      have hg : c.state.halted = false := (grows_of_changes hr.changes).halted
      cases hg.symm.trans hh
    | some fault =>
      obtain ⟨n, hn⟩ := hr
      obtain ⟨k, block, rest, e, hk, ha⟩ := Machine.exists_failing_step hn
      exact ⟨k, block, e, fault, rest, c, hk, ha⟩
  · rintro ⟨n, block, e, fault, hf⟩
    obtain ⟨d, hs, -⟩ := hf.stops
    obtain ⟨rfl, -⟩ := Machine.stopped_unique hr hs
    rfl

/-- What a run leaves when a step fails: the store and the trace from before that step, and the line
of the fault. -/
theorem kept_of_failsAt (h : s.Ends program t) (hf : s.FailsAt program n block e fault)
    (hk : block.kind ≠ .declareVars) :
    t.state.store = e.state.store ∧ t.state.trace = e.state.trace.push (.halted fault) := by
  obtain ⟨d, hs, ha⟩ := hf.stops
  obtain ⟨result, c, hr, rfl⟩ := ends_iff.1 h
  obtain ⟨rfl, rfl⟩ := Machine.stopped_unique hr hs
  have hd := keeps_of_advance hk ha
  exact ⟨hd.store, congrArg (·.push (.halted fault)) hd.trace⟩

end Session

/-- Nothing is left half done by what fails. A block without children that fails leaves everything
as it was. A control block that fails does so in its children, or where its condition was looked at
for the last time; then the store and the trace are as they were there. So an aborted run, unless it
was a declaration that failed, ends with the store that the steps before the failing one left. -/
theorem failed_step_leaves_nothing_half_done (limits : Limits) (fuel : Nat) :
    (∀ (p : Parameters), ∀ block ∈ [Block.assign p, .arithmetic p, .declareArray p, .arrayAccess p],
      ∀ c fault d, execute limits fuel block c = .aborted fault d → d = c) ∧
    (∀ block c fault d, block.isControl = true → execute limits fuel block c = .aborted fault d →
      ∃ e, LooksAt limits fuel block c e ∧ FailsFrom limits fuel block e fault d) ∧
    (∀ block c e fault d, block.isControl = true → LooksAt limits fuel block c e →
      Denies limits block e fault d →
        e.Keeps d ∧ ∃ more, execute limits more block c = .aborted fault d) ∧
    ∀ (s t : Session) (program : List Block), s.Ends program t →
      (t.state.halted = true ↔ ∃ n block e fault, s.FailsAt program n block e fault) ∧
      ∀ n block e fault, s.FailsAt program n block e fault → block.kind ≠ .declareVars →
        t.state.store = e.state.store ∧ t.state.trace = e.state.trace.push (.halted fault) := by
  refine ⟨?_, fun block c fault d hk h => execute_eq_aborted hk h,
    fun block c e fault d hk hl h => ⟨h.keeps, exists_execute_of_denies hk hl h⟩,
    fun s t program h => ⟨Session.halted_iff_failsAt h, fun n block e fault hf hk =>
      Session.kept_of_failsAt h hf hk⟩⟩
  intro p block hb c fault d h
  simp only [List.mem_cons, List.not_mem_nil, or_false] at hb
  rcases hb with rfl | rfl | rfl | rfl
  · exact ofEffect_eq_aborted (execute_assign limits fuel p c ▸ h)
  · exact ofEffect_eq_aborted (execute_arithmetic limits fuel p c ▸ h)
  · exact ofEffect_eq_aborted (execute_declareArray limits fuel p c ▸ h)
  · exact ofEffect_eq_aborted (execute_arrayAccess limits fuel p c ▸ h)

/-- The second test of the loop divides by zero. The run leaves what the first round left, and no
line says that a second one was begun. A value that is no integer is found only after the element
was, and nothing was done by then. -/
theorem second_test_divides_by_zero :
    (∃ t, Session.Ends {} [.declareNames "x", .assignTo "x" "1",
        .loop "6 / x > 0" [.assignTo "x" "x - 1"]] t ∧
      t.state.halted = true ∧ t.state.store.vars["x"]? = some 0 ∧
      t.state.lines = ["Declared variable: x = 0", "x = 1", "While condition '6 / x > 0' is TRUE",
        "x = 0", "Error: Division by zero"]) ∧
    ∃ d, execute {} 2 (.setAt "a" "1" "z") (.ofArray (.zeros 2) #[]) =
        .aborted (.missingParameter .value) d ∧
      d = .ofArray (.zeros 2) #[] := by
  obtain ⟨hleaf, -, -, hrun⟩ := failed_step_leaves_nothing_half_done {} 2
  constructor
  · have hf : Session.FailsAt {} [.declareNames "x", .assignTo "x" "1",
        .loop "6 / x > 0" [.assignTo "x" "x - 1"]] 4 (.loop "6 / x > 0" [.assignTo "x" "x - 1"])
        ⟨{ store := { vars := (∅ : Expression.Variables).insert "x" 0 }
           trace := #[.declared "x", .assigned "x" 1, .looped "6 / x > 0" true, .assigned "x" 0]
           iterations := 1 }, false⟩
        (.condition (.expression ⟨.divisionByZero, ⟨4, 1⟩⟩)) := by
      have hp : (Block.loop "6 / x > 0" [.assignTo "x" "x - 1"]).parameters.get? .condition =
          some "6 / x > 0" := by
        cbv
      exact ⟨[], _, by cbv, (advance_eq_fail_iff rfl).2 (.undecided hp (by cbv))⟩
    obtain ⟨d, hd, -⟩ := hf.stops
    have he := Session.ends_iff.2 ⟨_, d, hd, rfl⟩
    obtain ⟨hh, hk⟩ := hrun _ _ _ he
    obtain ⟨hs, ht⟩ := hk _ _ _ _ hf (by decide)
    refine ⟨_, he, hh.2 ⟨_, _, _, _, hf⟩, ?_, ?_⟩
    · rw [hs]
      simp
    · rw [State.lines, ht]
      decide
  · have hx : ∃ d, execute {} 2 (.setAt "a" "1" "z") (.ofArray (.zeros 2) #[]) =
        .aborted (.missingParameter .value) d := ⟨_, by cbv⟩
    obtain ⟨d, hd⟩ := hx
    have hb := hleaf (Block.setAt "a" "1" "z").parameters (.setAt "a" "1" "z")
    exact ⟨d, hd, hb (by simp [Block.setAt, Block.parameters]) _ _ _ hd⟩

end BlockTrace.Run
