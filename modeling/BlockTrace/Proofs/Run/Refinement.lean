import BlockTrace.Proofs.Run.Fuel
import BlockTrace.Proofs.Run.Step

/-! Nested execution and the flat machine agree: a list of blocks ends in a result exactly when the
machine that starts on it stops with that result. -/
namespace BlockTrace.Run
open Program (Block Parameters)
open Machine (running stopped step Reaches)

def Outcome.ofResult : Option Fault → Config → Outcome
  | none, c => completed c
  | some fault, c => aborted fault c

theorem Outcome.ofResult_ne_unfinished (result : Option Fault) (c : Config) :
    Outcome.ofResult result c ≠ unfinished := by
  cases result <;> nofun

theorem Outcome.ofResult_inj {result result' : Option Fault} {c d : Config}
    (h : Outcome.ofResult result c = .ofResult result' d) : result = result' ∧ c = d := by
  cases result <;> cases result' <;> cases h <;> exact ⟨rfl, rfl⟩

theorem Outcome.exists_ofResult {o : Outcome} (h : o ≠ unfinished) :
    ∃ result c, o = .ofResult result c := by
  cases o with
  | completed c => exact ⟨none, c, rfl⟩
  | aborted fault c => exact ⟨some fault, c, rfl⟩
  | unfinished => exact absurd rfl h

section Equations
variable (limits : Limits) (p : Parameters) (c : Config)

theorem advance_whileLoop_missing {fault : Fault} (body : List Block)
    (h : require p .condition = .error fault) :
    advance limits (.whileLoop p body) c = .fail fault c := by
  simp only [advance, decideCondition, h, bind, Except.bind]

theorem advance_whileLoop {condition : String} (body : List Block)
    (h : require p .condition = .ok condition) :
    advance limits (.whileLoop p body) c =
      match test c.state.store condition with
      | .error fault => .fail fault c
      | .ok false => .go [] (c.emit (.looped condition false))
      | .ok true =>
        match beginIteration limits c with
        | (d, some fault) => .fail fault d
        | (d, none) => .go (body ++ [.whileLoop p body]) (d.emit (.looped condition true)) := by
  simp only [advance, decideCondition, h, bind, Except.bind, pure, Except.pure]
  cases test c.state.store condition with
  | error fault => rfl
  | ok holds => cases holds <;> rfl

end Equations

/-- The machine gets to the blocks after a piece, or stops, as the outcome of the piece says. -/
def Arrives (limits : Limits) (m : Machine) (rest : List Block) : Outcome → Prop
  | .completed d => Reaches limits m (running rest d)
  | .aborted fault d => Reaches limits m (stopped (some fault) d)
  | .unfinished => True

section Arrives
variable {limits : Limits} {fuel : Nat} {block : Block} {front rest more : List Block}
  {m m' : Machine} {c d : Config} {fault : Fault} {o : Outcome}

theorem Arrives.of_reaches (h : Reaches limits m m') (ha : Arrives limits m' rest o) :
    Arrives limits m rest o := by
  cases o with
  | completed d => exact h.trans ha
  | aborted fault d => exact h.trans ha
  | unfinished => trivial

theorem Arrives.andThen {next : Config → Outcome} (h : Arrives limits m more o)
    (hn : ∀ d, Arrives limits (running more d) rest (next d)) :
    Arrives limits m rest (o.andThen next) := by
  cases o with
  | completed d => exact .of_reaches h (hn d)
  | aborted fault d => exact h
  | unfinished => trivial

theorem arrives_of_fail (h : advance limits block c = .fail fault d) :
    Arrives limits (running (block :: rest) c) rest (.aborted fault d) :=
  Reaches.head (Machine.step_of_fail h ▸ .refl _)

theorem arrives_of_go (h : advance limits block c = .go front d)
    (hf : Arrives limits (running (front ++ rest) d) rest o) :
    Arrives limits (running (block :: rest) c) rest o :=
  .of_reaches (.head (Machine.step_of_go h ▸ .refl _)) hf

private theorem arrives_finish {run : List Block → Config → Outcome}
    (h : ∀ front d, advance limits block c = .go front d →
      Arrives limits (running (front ++ rest) d) rest (run front d)) :
    Arrives limits (running (block :: rest) c) rest ((advance limits block c).finish run) := by
  cases ha : advance limits block c with
  | fail fault d => exact arrives_of_fail ha
  | go front d => exact arrives_of_go ha (h front d ha)

/-- The rounds of a loop, given what its body does. -/
theorem repeatWhile_arrives {p : Parameters} {body : List Block} {condition : String}
    (hr : require p .condition = .ok condition) (run : Config → Outcome)
    (hb : ∀ c, Arrives limits (running (body ++ .whileLoop p body :: rest) c)
      (.whileLoop p body :: rest) (run c)) (fuel : Nat) (c : Config) :
    Arrives limits (running (.whileLoop p body :: rest) c) rest
      (repeatWhile limits condition run fuel c) := by
  induction fuel generalizing c with
  | zero => trivial
  | succ fuel ih =>
    have ha := advance_whileLoop limits p c body hr
    rw [repeatWhile_succ]
    cases ht : test c.state.store condition with
    | error fault =>
      rw [ht] at ha
      exact arrives_of_fail ha
    | ok holds =>
      rw [ht] at ha
      cases holds with
      | false => exact arrives_of_go ha (Reaches.refl _)
      | true =>
        rcases hi : beginIteration limits c with ⟨d, _ | fault⟩
        · rw [hi] at ha
          apply arrives_of_go ha
          rw [List.append_assoc]
          exact (hb _).andThen ih
        · rw [hi] at ha
          exact arrives_of_fail ha

/-- Whatever comes after the blocks, the machine works them off as nested execution does. -/
theorem executeAll_arrives (limits : Limits) (fuel : Nat) (blocks rest : List Block) (c : Config) :
    Arrives limits (running (blocks ++ rest) c) rest (executeAll limits fuel blocks c) := by
  refine blocks_induction
    (P := fun blocks => ∀ rest c,
      Arrives limits (running (blocks ++ rest) c) rest (executeAll limits fuel blocks c))
    (Q := fun block => ∀ rest c,
      Arrives limits (running (block :: rest) c) rest (execute limits fuel block c))
    ?_ ?_ ?_ ?_ blocks rest c
  · intro rest c
    rw [executeAll_nil]
    exact Reaches.refl _
  · intro block blocks hb hr rest c
    rw [executeAll_cons, List.cons_append]
    exact (hb (blocks ++ rest) c).andThen (hr rest)
  · intro p body hb rest c
    rw [execute]
    cases hr : require p .condition with
    | error fault => exact arrives_of_fail (advance_whileLoop_missing limits p c body hr)
    | ok condition => exact repeatWhile_arrives hr _ (hb (.whileLoop p body :: rest)) fuel c
  · intro block hk hf rest c
    rw [execute_eq_finish limits fuel c block hk]
    exact arrives_finish fun front d h => hf front (mem_fronts_of_advance h) rest d

end Arrives

section Finished
variable {limits : Limits} {fuel : Nat} {block : Block} {front : List Block} {c d e : Config}
  {result : Option Fault}

private theorem finish_below_whileLoop (limits : Limits) (fuel : Nat) (p : Parameters)
    (body : List Block) (c : Config) :
    ((advance limits (.whileLoop p body) c).finish (executeAll limits fuel)).Below
      (execute limits (fuel + 1) (.whileLoop p body) c) := by
  rw [execute]
  cases hr : require p .condition with
  | error fault =>
    rw [advance_whileLoop_missing limits p c body hr]
    exact .refl _
  | ok condition =>
    dsimp only
    rw [repeatWhile_succ, advance_whileLoop limits p c body hr]
    cases test c.state.store condition with
    | error fault => exact .refl _
    | ok holds =>
      cases holds with
      | false => rw [Advance.finish, executeAll_nil]; exact .refl _
      | true =>
        rcases beginIteration limits c with ⟨d, _ | fault⟩
        · dsimp only [Advance.finish]
          rw [executeAll_append]
          refine (executeAll_below (Nat.le_succ fuel) body _).andThen fun e => ?_
          rw [executeAll_singleton, execute, hr]
          exact repeatWhile_below condition (executeAll_below (Nat.le_succ fuel) body)
            (Nat.le_refl fuel) e
        · exact .refl _

/-- One unit of fuel more than what a block leaves needs is enough for the block. -/
theorem finish_below_execute (limits : Limits) (fuel : Nat) (block : Block) (c : Config) :
    ((advance limits block c).finish (executeAll limits fuel)).Below
      (execute limits (fuel + 1) block c) := by
  by_cases h : ∃ p body, block = .whileLoop p body
  · obtain ⟨p, body, rfl⟩ := h
    exact finish_below_whileLoop limits fuel p body c
  · rw [execute_eq_finish limits (fuel + 1) c block fun p body hb => h ⟨p, body, hb⟩]
    cases advance limits block c with
    | fail fault d => exact .refl _
    | go front d => exact executeAll_below (Nat.le_succ fuel) front d

/-- A block that is no loop with a true condition needs no more fuel than what it leaves. -/
private theorem execute_of_quiet (hf : 0 < fuel) (h : loopHolds block c = false)
    (ha : advance limits block c = .go front e) :
    execute limits fuel block c = executeAll limits fuel front e := by
  by_cases hk : ∃ p body, block = .whileLoop p body
  · obtain ⟨p, body, rfl⟩ := hk
    have hn : front = [] := by
      simp only [advance] at ha
      rcases hd : decideCondition p c.state.store with fault | ⟨condition, _ | _⟩
      · rw [hd] at ha
        cases ha
      · rw [hd] at ha
        cases ha
        rfl
      · simp [loopHolds, hd] at h
    obtain ⟨fuel, rfl⟩ := Nat.exists_eq_add_one_of_ne_zero (Nat.ne_of_gt hf)
    have hb := finish_below_execute limits fuel (.whileLoop p body) c
    rw [ha, Advance.finish, hn, executeAll_nil] at hb
    rw [hn, executeAll_nil]
    exact hb.eq (Outcome.ofResult_ne_unfinished none e)
  · rw [execute_eq_finish limits fuel c block fun p body hb => hk ⟨p, body, hb⟩, ha]
    rfl

/-- One unit of fuel more than what is pending after a step needs is enough before it. -/
theorem executeAll_below_cons (fuel : Nat) (rest : List Block)
    (ha : advance limits block c = .go front e) :
    (executeAll limits fuel (front ++ rest) e).Below
      (executeAll limits (fuel + 1) (block :: rest) c) := by
  have hb := finish_below_execute limits fuel block c
  rw [ha] at hb
  rw [executeAll_append, executeAll_cons]
  exact hb.andThen (executeAll_below (Nat.le_succ fuel) rest)

/-- If the machine stops, as much fuel as it begins rounds, and one more, is enough. -/
theorem executeAll_of_rounds {n : Nat} {blocks : List Block}
    (h : (step limits)^[n] (running blocks c) = stopped result d)
    (hf : d.state.rounds < fuel + c.state.rounds) :
    executeAll limits fuel blocks c = .ofResult result d := by
  induction n generalizing blocks c fuel with
  | zero => cases h
  | succ n ih =>
    rw [Function.iterate_succ_apply] at h
    cases blocks with
    | nil =>
      rw [step, Machine.iterate_stopped] at h
      cases h
      exact executeAll_nil limits fuel _
    | cons block rest =>
      have hx : Extends c d := by
        have hr : Reaches limits (running (block :: rest) c) (stopped result d) := .head ⟨n, h⟩
        exact hr.extends
      have hle := hx.rounds_le
      obtain ⟨fuel, rfl⟩ := Nat.exists_eq_add_one_of_ne_zero (by omega : fuel ≠ 0)
      cases ha : advance limits block c with
      | fail fault e =>
        rw [Machine.step_of_fail ha, Machine.iterate_stopped] at h
        cases h
        have hb := finish_below_execute limits fuel block c
        rw [ha] at hb
        rw [executeAll_cons, hb.eq (Outcome.ofResult_ne_unfinished (some fault) d)]
        rfl
      | go front e =>
        rw [Machine.step_of_go ha] at h
        cases hl : loopHolds block c with
        | false =>
          have hq : (advance limits block c).Quiet c := advance_quiet hl
          rw [ha] at hq
          have hr : e.state.rounds = c.state.rounds := Quiet.rounds hq
          rw [executeAll_cons, execute_of_quiet (Nat.succ_pos fuel) hl ha, ← executeAll_append]
          exact ih h (by omega)
        | true =>
          have hr := rounds_of_loopHolds hl ha
          have hi : executeAll limits fuel (front ++ rest) e = .ofResult result d :=
            ih h (by omega)
          have hb' := executeAll_below_cons fuel rest ha
          rw [hi] at hb'
          exact hb'.eq (Outcome.ofResult_ne_unfinished result d)

theorem executeAll_of_le {more : Nat} {blocks : List Block} (hm : fuel ≤ more)
    (h : executeAll limits fuel blocks c = .ofResult result d) :
    executeAll limits more blocks c = .ofResult result d := by
  have hb : (executeAll limits fuel blocks c).Below (executeAll limits more blocks c) :=
    executeAll_below hm blocks c
  rw [h] at hb
  exact hb.eq (Outcome.ofResult_ne_unfinished result d)

theorem executeAll_of_stopped {n : Nat} {blocks : List Block}
    (h : (step limits)^[n] (running blocks c) = stopped result d) :
    ∃ fuel, executeAll limits fuel blocks c = .ofResult result d :=
  ⟨d.state.rounds + 1, executeAll_of_rounds h (by omega)⟩

theorem reaches_of_executeAll {blocks : List Block}
    (h : executeAll limits fuel blocks c = .ofResult result d) :
    Reaches limits (running blocks c) (stopped result d) := by
  have ha := executeAll_arrives limits fuel blocks [] c
  rw [List.append_nil, h] at ha
  cases result with
  | none => exact ha.trans (.head (.refl _))
  | some fault => exact ha

end Finished

namespace Session

/-- A run of the program ends, and leaves the session `t`. -/
def Ends (s : Session) (program : List Block) (t : Session) : Prop :=
  ∃ fuel, s.runFor fuel program = some t

def machine (s : Session) (program : List Block) : Machine :=
  running program ⟨{}, s.interrupted⟩

def point (s : Session) (program : List Block) (n : Nat) : State :=
  ((step s.limits)^[n] (s.machine program)).config.state

def after (s : Session) : Option Fault → Config → Session
  | none, c => { s with state := c.state, interrupted := false }
  | some fault, c => { s with state := c.state.halt fault, interrupted := false }

/-- The run that left the session was stopped by a fault. -/
def AbortedBy (t : Session) (fault : Fault) : Prop :=
  t.state.halted = true ∧ t.state.trace.back? = some (.halted fault)

variable {s t : Session} {program : List Block}

theorem abortedBy_after_some (s : Session) (fault : Fault) (c : Config) :
    (s.after (some fault) c).AbortedBy fault :=
  ⟨rfl, by simp [after, State.halt]⟩

theorem abortedBy_after_iff {result : Option Fault} {fault : Fault} {c : Config}
    (h : c.state.halted = false) : (s.after result c).AbortedBy fault ↔ result = some fault := by
  cases result with
  | none => simp [AbortedBy, after, h]
  | some other => simp [AbortedBy, after, State.halt]

theorem runFor_eq_some_iff {fuel : Nat} :
    s.runFor fuel program = some t ↔
      ∃ result c, executeAll s.limits fuel program ⟨{}, s.interrupted⟩ = .ofResult result c ∧
        t = s.after result c := by
  rw [runFor_cleared]
  cases executeAll s.limits fuel program ⟨{}, s.interrupted⟩ with
  | completed c =>
    constructor
    · rintro ⟨rfl⟩
      exact ⟨none, c, rfl, rfl⟩
    · rintro ⟨_ | fault, d, h, rfl⟩ <;> cases h
      rfl
  | aborted fault c =>
    constructor
    · rintro ⟨rfl⟩
      exact ⟨some fault, c, rfl, rfl⟩
    · rintro ⟨_ | fault, d, h, rfl⟩ <;> cases h
      rfl
  | unfinished =>
    constructor
    · nofun
    · rintro ⟨_ | fault, d, h, rfl⟩ <;> cases h

theorem runFor_mono {fuel more : Nat} (h : s.runFor fuel program = some t) (hm : fuel ≤ more) :
    s.runFor more program = some t := by
  obtain ⟨result, c, hx, rfl⟩ := runFor_eq_some_iff.1 h
  exact runFor_eq_some_iff.2 ⟨result, c, executeAll_of_le hm hx, rfl⟩

/-- A run that stops with a fault, found by running it. -/
theorem exists_ends_abortedBy {fuel : Nat} {fault : Fault}
    (h : (s.runFor fuel program).map (fun t => (t.state.halted, t.state.trace.back?)) =
      some (true, some (.halted fault))) : ∃ t, s.Ends program t ∧ t.AbortedBy fault := by
  obtain ⟨t, ht, he⟩ := Option.map_eq_some_iff.1 h
  obtain ⟨hh, hb⟩ := Prod.mk.injEq .. ▸ he
  exact ⟨t, ⟨fuel, ht⟩, hh, hb⟩

/-- A run ends as its machine stops. -/
theorem ends_iff :
    s.Ends program t ↔
      ∃ result c, Reaches s.limits (s.machine program) (stopped result c) ∧
        t = s.after result c := by
  constructor
  · rintro ⟨fuel, h⟩
    obtain ⟨result, c, hx, rfl⟩ := runFor_eq_some_iff.1 h
    exact ⟨result, c, reaches_of_executeAll hx, rfl⟩
  · rintro ⟨result, c, ⟨n, hn⟩, rfl⟩
    obtain ⟨fuel, hx⟩ := executeAll_of_stopped hn
    exact ⟨fuel, runFor_eq_some_iff.2 ⟨result, c, hx, rfl⟩⟩

end Session

/-- Nested execution is the flat machine. Blocks end in a result exactly when the machine stops
with it; and once a block fails, at whatever depth, nothing more is done, so that the trace of a
run is what was logged up to there and the line for the fault. -/
theorem execution_refines_machine (limits : Limits) (blocks : List Block) (c : Config) :
    (∀ result d, (∃ fuel, executeAll limits fuel blocks c = .ofResult result d) ↔
      ∃ n, (step limits)^[n] (running blocks c) = stopped result d) ∧
    ∀ n block rest e fault d, (step limits)^[n] (running blocks c) = running (block :: rest) e →
      advance limits block e = .fail fault d →
        (∀ k, n < k → (step limits)^[k] (running blocks c) = stopped (some fault) d) ∧
        (∃ fuel, executeAll limits fuel blocks c = .aborted fault d) ∧
        ∀ s : Session, s.limits = limits → c = ⟨{}, s.interrupted⟩ →
          s.Ends blocks { s with state := d.state.halt fault, interrupted := false } := by
  refine ⟨fun result d => ⟨fun ⟨fuel, h⟩ => reaches_of_executeAll h,
    fun ⟨n, h⟩ => executeAll_of_stopped h⟩, ?_⟩
  intro n block rest e fault d hn ha
  have hs : (step limits)^[n + 1] (running blocks c) = stopped (some fault) d := by
    rw [Function.iterate_succ_apply', hn, Machine.step_of_fail ha]
  refine ⟨fun k hk => Machine.iterate_of_stopped hs hk, executeAll_of_stopped hs, ?_⟩
  rintro s rfl rfl
  exact Session.ends_iff.2 ⟨some fault, d, ⟨n + 1, hs⟩, rfl⟩

end BlockTrace.Run
