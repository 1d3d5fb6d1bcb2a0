import BlockTrace.Proofs.Run.Budget
import Mathlib

/-! A pending interrupt against an empty budget. Until the condition of a loop holds, a run takes no
notice of either; and then both stop it in the same place. -/
namespace BlockTrace.Run
open Program (Block)
open Machine (running stopped step Reaches)

def Config.setFlag (c : Config) (flag : Bool) : Config :=
  { c with interrupt := flag }

def Advance.setFlag (flag : Bool) : Advance → Advance
  | .fail fault c => .fail fault (c.setFlag flag)
  | .go front c => .go front (c.setFlag flag)

def Machine.setFlag (flag : Bool) : Machine → Machine
  | running pending c => running pending (c.setFlag flag)
  | stopped result c => stopped result (c.setFlag flag)

section Flag
variable {a b : Limits} {block : Block} {c : Config} {m : Machine} {n : Nat} {flag : Bool}

theorem loopHolds_setFlag (block : Block) (c : Config) (flag : Bool) :
    loopHolds block (c.setFlag flag) = loopHolds block c := by
  cases block <;> rfl

private theorem ofAction_setFlag (action : Action Unit) (c : Config) (flag : Bool) :
    Advance.ofAction (c.setFlag flag) action = (Advance.ofAction c action).setFlag flag := by
  simp only [Advance.ofAction, Config.setFlag]
  cases action c.state <;> rfl

/-- Unless it is a loop whose condition holds, a block does the same with an interrupt pending as
without one, and within any budget. -/
theorem advance_setFlag (hl : a.maxArrayLength = b.maxArrayLength) (h : loopHolds block c = false)
    (flag : Bool) : advance b block (c.setFlag flag) = (advance a block c).setFlag flag := by
  cases block with
  | declareVars p | assign p | arithmetic p | arrayAccess p => exact ofAction_setFlag _ c flag
  | declareArray p =>
    rw [advance, advance, hl]
    exact ofAction_setFlag _ c flag
  | ifThen p body | ifElse p thenBranch elseBranch =>
    simp only [advance, Config.setFlag]
    rcases decideCondition p c.state.store with fault | ⟨condition, _ | _⟩ <;> rfl
  | whileLoop p body =>
    simp only [advance, Config.setFlag]
    rcases hd : decideCondition p c.state.store with fault | ⟨condition, _ | _⟩
    · rfl
    · rfl
    · simp [loopHolds, hd] at h

private theorem step_setFlag (hl : a.maxArrayLength = b.maxArrayLength) (h : m.loopHolds = false)
    (flag : Bool) : step b (m.setFlag flag) = (step a m).setFlag flag := by
  rcases m with ⟨_ | ⟨block, rest⟩, c⟩ | ⟨result, c⟩
  · rfl
  · have ha := advance_setFlag hl h flag
    cases hx : advance a block c with
    | fail fault d =>
      rw [hx] at ha
      rw [Machine.step_of_fail hx]
      exact Machine.step_of_fail ha
    | go front d =>
      rw [hx] at ha
      rw [Machine.step_of_go hx]
      exact Machine.step_of_go ha
  · rfl

/-- As long as no loop condition holds, the machine goes the same way with an interrupt pending as
without one, and within any budget. -/
theorem iterate_setFlag (hl : a.maxArrayLength = b.maxArrayLength)
    (h : ∀ k < n, ((step a)^[k] m).loopHolds = false) (flag : Bool) :
    (step b)^[n] (m.setFlag flag) = ((step a)^[n] m).setFlag flag := by
  induction n with
  | zero => rfl
  | succ n ih =>
    rw [Function.iterate_succ_apply', Function.iterate_succ_apply',
      ih fun k hk => h k (Nat.lt_succ_of_lt hk), step_setFlag hl (h n (Nat.lt_succ_self n))]

private theorem machine_loopHolds_setFlag (m : Machine) (flag : Bool) :
    (m.setFlag flag).loopHolds = m.loopHolds := by
  rcases m with ⟨_ | ⟨block, rest⟩, c⟩ | ⟨result, c⟩
  · rfl
  · exact loopHolds_setFlag block c flag
  · rfl

end Flag

/-- The fault that stopped the machine, if there is one, is not of the check before a round. -/
def Machine.Unchecked : Machine → Prop
  | stopped (some fault) _ => fault.ofRound = false
  | _ => True

section Quiet
variable {limits : Limits} {m : Machine} {n : Nat}

private theorem step_quiet (limits : Limits) (h : m.loopHolds = false) (hu : m.Unchecked) :
    Quiet m.config (step limits m).config ∧ (step limits m).Unchecked := by
  rcases m with ⟨_ | ⟨block, rest⟩, c⟩ | ⟨result, c⟩
  · exact ⟨.refl c, trivial⟩
  · have hq : (advance limits block c).Quiet c := advance_quiet h
    cases hx : advance limits block c with
    | fail fault d =>
      rw [hx] at hq
      rw [Machine.step_of_fail hx]
      exact ⟨hq.2, hq.1⟩
    | go front d =>
      rw [hx] at hq
      rw [Machine.step_of_go hx]
      exact ⟨hq, trivial⟩
  · exact ⟨.refl c, hu⟩

/-- As long as no loop condition holds, there is no round, and the check before a round stops
nothing. -/
theorem iterate_quiet (h : ∀ k < n, ((step limits)^[k] m).loopHolds = false)
    (hu : m.Unchecked) :
    Quiet m.config ((step limits)^[n] m).config ∧ ((step limits)^[n] m).Unchecked := by
  induction n with
  | zero => exact ⟨.refl _, hu⟩
  | succ n ih =>
    obtain ⟨hq, hn⟩ := ih fun k hk => h k (Nat.lt_succ_of_lt hk)
    obtain ⟨hq', hn'⟩ := step_quiet limits (h n (Nat.lt_succ_self n)) hn
    rw [Function.iterate_succ_apply']
    exact ⟨hq.trans hq', hn'⟩

end Quiet

section Stop
variable {limits : Limits} {block : Block} {rest : List Block} {c : Config}

/-- A pending interrupt stops the machine where a round would begin. -/
theorem step_of_interrupt (hi : c.interrupt = true) (h : loopHolds block c = true) :
    step limits (running (block :: rest) c) = stopped (some .interrupted) (c.setFlag false) := by
  rcases advance_round limits h with ⟨-, ha⟩ | ⟨hc, -⟩ | ⟨hc, -⟩
  · exact Machine.step_of_fail ha
  · cases hi.symm.trans hc
  · cases hi.symm.trans hc

theorem step_of_empty_budget (hl : limits.maxIterations = some 0) (hi : c.interrupt = false)
    (h : loopHolds block c = true) :
    step limits (running (block :: rest) c) = stopped (some (.budgetExceeded 0)) c.count := by
  rcases advance_round limits h with ⟨hc, -⟩ | ⟨-, limit, hl', -, ha⟩ | ⟨-, hm, -⟩
  · cases hi.symm.trans hc
  · obtain rfl : 0 = limit := Option.some.inj (hl.symm.trans hl')
    exact Machine.step_of_fail ha
  · exact absurd (hm 0 hl) (Nat.not_lt_zero _)

end Stop

theorem lines_halt (s : State) (fault : Fault) :
    (s.halt fault).lines = s.lines ++ ["Error: " ++ fault.message] := by
  rw [State.lines, State.halt, Array.toList_push, List.map_append]
  rfl

namespace Session
variable {s : Session} {program : List Block} {n : Nat} {result : Option Fault} {c : Config}

def calm (s : Session) : Session :=
  { s with interrupted := false }

def exhausted (s : Session) : Session :=
  { s with limits := { s.limits with maxIterations := some 0 }, interrupted := false }

/-- After `n` steps of a run with an interrupt pending, the condition of a loop holds. -/
def Meets (s : Session) (program : List Block) (n : Nat) : Prop :=
  ((step s.limits)^[n] (s.interrupt.machine program)).loopHolds = true

theorem run_of_stopped (h : Reaches s.limits (s.machine program) (stopped result c))
    (hr : c.state.rounds = 0) : s.run program = some (s.after result c) := by
  obtain ⟨n, hn⟩ := h
  have hf : 0 < s.limits.fuel := by
    unfold Limits.fuel
    split <;> omega
  refine runFor_eq_some_iff.2 ⟨result, c, executeAll_of_rounds hn ?_, rfl⟩
  rw [hr]
  exact Nat.add_pos_left hf _

/-- Up to the first loop condition that holds, nothing has happened but what any run does. -/
theorem quiet_interrupt (h : ∀ k < n, ¬ s.Meets program k) :
    Quiet ⟨{}, true⟩ ((step s.limits)^[n] (s.interrupt.machine program)).config ∧
      ((step s.limits)^[n] (s.interrupt.machine program)).Unchecked :=
  iterate_quiet (fun k hk => Bool.eq_false_iff.2 (h k hk)) trivial

/-- The runs with another flag and another budget are at the same place by then. -/
theorem iterate_of_quiet (u : Session) (h : ∀ k < n, ¬ s.Meets program k)
    (hl : s.limits.maxArrayLength = u.limits.maxArrayLength) :
    (step u.limits)^[n] (u.machine program) =
      ((step s.limits)^[n] (s.interrupt.machine program)).setFlag u.interrupted :=
  iterate_setFlag hl (fun k hk => Bool.eq_false_iff.2 (h k hk)) u.interrupted

/-- The first loop condition that holds stops both runs, in the same state. -/
theorem stopped_of_meets (hq : ∀ k < n, ¬ s.Meets program k) (hn : s.Meets program n) :
    (step s.limits)^[n + 1] (s.interrupt.machine program) =
      stopped (some .interrupted) ⟨s.interrupt.point program n, false⟩ ∧
    (step s.exhausted.limits)^[n + 1] (s.exhausted.machine program) =
      stopped (some (.budgetExceeded 0)) (Config.count ⟨s.interrupt.point program n, false⟩) := by
  obtain ⟨hc, -⟩ := quiet_interrupt hq
  have he := iterate_of_quiet s.exhausted hq rfl
  have hp : s.interrupt.point program n =
      ((step s.limits)^[n] (s.interrupt.machine program)).config.state := rfl
  unfold Meets at hn
  rw [hp, Function.iterate_succ_apply', Function.iterate_succ_apply', he]
  rcases hm : (step s.limits)^[n] (s.interrupt.machine program) with
    ⟨_ | ⟨block, rest⟩, c⟩ | ⟨result, c⟩
  · rw [hm] at hn
    cases hn
  · -- Both machines stand before the same loop, and differ in the flag only.
    rw [hm] at hn hc
    exact ⟨step_of_interrupt hc.interrupt hn,
      step_of_empty_budget rfl rfl ((loopHolds_setFlag block c false).trans hn)⟩
  · rw [hm] at hn
    cases hn

theorem first_of_meets (h : s.Meets program n) : ∀ k < n, ¬ s.Meets program k := by
  classical
  intro k hk hm
  have hx : ∃ j, s.Meets program j := ⟨k, hm⟩
  obtain ⟨hs, -⟩ := stopped_of_meets (fun _ => Nat.find_min hx) (Nat.find_spec hx)
  have hle : Nat.find hx + 1 ≤ n := Nat.le_trans (Nat.succ_le_succ (Nat.find_min' hx hm)) hk
  rw [Meets, Machine.iterate_of_stopped hs hle] at h
  cases h

private theorem meets_unique {k : Nat} (h : s.Meets program n) (h' : s.Meets program k) :
    k = n := by
  rcases Nat.lt_trichotomy k n with hl | he | hl
  · exact absurd h' (first_of_meets h k hl)
  · exact he
  · exact absurd h (first_of_meets h' n hl)

private theorem after_setFlag (s : Session) (result : Option Fault) (c : Config) (flag : Bool) :
    s.after result (c.setFlag flag) = s.after result c := by
  cases result <;> rfl

theorem runs_of_meets (hn : s.Meets program n) :
    (s.interrupt.point program n).halted = false ∧
    s.interrupt.run program =
      some (s.interrupt.after (some .interrupted) ⟨s.interrupt.point program n, false⟩) ∧
    s.exhausted.run program = some (s.exhausted.after (some (.budgetExceeded 0))
      (Config.count ⟨s.interrupt.point program n, false⟩)) := by
  have hq := first_of_meets hn
  obtain ⟨hc, -⟩ := quiet_interrupt hq
  obtain ⟨hi, he⟩ := stopped_of_meets hq hn
  have hr : (s.interrupt.point program n).rounds = 0 := Quiet.rounds hc
  exact ⟨hc.halted, run_of_stopped ⟨_, hi⟩ hr, run_of_stopped ⟨_, he⟩ hr⟩

/-- How runs end if no loop condition ever holds: alike, whatever the flag and the budget, and not
by one of the two. -/
theorem runs_of_not_meets (h : ∀ n, ¬ s.Meets program n) :
    ∃ result c, c.state.halted = false ∧ (∀ fault, result = some fault → fault.ofRound = false) ∧
      ∀ u : Session, s.limits.maxArrayLength = u.limits.maxArrayLength →
        u.run program = some (u.after result c) := by
  obtain ⟨result, c, hx⟩ := executeAll_of_budget (s := s.exhausted) rfl program
  obtain ⟨n, hn⟩ : Reaches s.exhausted.limits (s.exhausted.machine program) (stopped result c) :=
    reaches_of_executeAll (hx 1 Nat.one_pos)
  obtain ⟨hq, hu⟩ := quiet_interrupt fun k (_ : k < n) => h k
  rw [iterate_of_quiet s.exhausted (fun k _ => h k) rfl] at hn
  rcases hm : (step s.limits)^[n] (s.interrupt.machine program) with ⟨pending, d⟩ | ⟨other, d⟩
  · rw [hm] at hn
    cases hn
  · rw [hm] at hq hu
    refine ⟨other, d, hq.halted, ?_, fun u hl => ?_⟩
    · rintro fault rfl
      exact hu
    · have hs := iterate_of_quiet u (fun k (_ : k < n) => h k) hl
      rw [hm] at hs
      rw [run_of_stopped ⟨n, hs⟩ (Quiet.rounds hq), after_setFlag]

/-- How `t`, which a run with an interrupt pending leaves, stands to `u`, which one on an empty budget
leaves. -/
structure EndsLike (s : Session) (program : List Block) (t u : Session) : Prop where
  store : t.state.store = u.state.store
  halted : t.state.halted = u.state.halted
  trace : ¬ u.AbortedBy (.budgetExceeded 0) → t.state.trace = u.state.trace
  lines : u.AbortedBy (.budgetExceeded 0) → t.AbortedBy .interrupted ∧ ∃ lines,
    u.state.lines = lines ++ ["Error: Iteration budget of 0 exceeded"] ∧
    t.state.lines = lines ++ ["Error: Execution interrupted"]
  -- The interrupt goes before the budget, whatever that is.
  wins : ∀ limit, ¬ t.AbortedBy (.budgetExceeded limit)
  -- The first loop condition that holds is where the run stops.
  first : ∀ n, s.Meets program n → t.state = (s.interrupt.point program n).halt .interrupted
  -- Where none ever holds, the interrupt changes nothing.
  unseen : (∀ n, ((step s.limits)^[n] (s.calm.machine program)).loopHolds = false) →
    s.calm.run program = some t
  clear : t.interrupted = false ∧ u.interrupted = false

private theorem endsLike_of_meets (hn : s.Meets program n) :
    s.EndsLike program
      (s.interrupt.after (some .interrupted) ⟨s.interrupt.point program n, false⟩)
      (s.exhausted.after (some (.budgetExceeded 0))
        (Config.count ⟨s.interrupt.point program n, false⟩)) where
  store := rfl
  halted := rfl
  trace := fun hu => absurd (abortedBy_after_some _ _ _) hu
  lines := fun _ => ⟨abortedBy_after_some _ _ _, (s.interrupt.point program n).lines,
    lines_halt _ (.budgetExceeded 0), lines_halt _ .interrupted⟩
  wins := by
    intro limit hb
    obtain ⟨hh, -⟩ := runs_of_meets hn
    cases (abortedBy_after_iff (c := ⟨_, false⟩) hh).1 hb
  first := by
    intro k hk
    rw [meets_unique hn hk]
    rfl
  unseen := by
    intro hf
    have hm : ((step s.calm.limits)^[n] (s.calm.machine program)).loopHolds = false := hf n
    rw [iterate_of_quiet s.calm (first_of_meets hn) rfl, machine_loopHolds_setFlag] at hm
    cases hm.symm.trans hn
  clear := ⟨rfl, rfl⟩

private theorem endsLike_of_not_meets (h : ∀ n, ¬ s.Meets program n) (hh : c.state.halted = false)
    (hf : ∀ fault, result = some fault → fault.ofRound = false)
    (hr : s.calm.run program = some (s.calm.after result c)) :
    s.EndsLike program (s.interrupt.after result c) (s.exhausted.after result c) := by
  have hs : (s.interrupt.after result c).state = (s.exhausted.after result c).state := by
    cases result <;> rfl
  have hb : ∀ u : Session, ∀ limit, ¬ (u.after result c).AbortedBy (.budgetExceeded limit) := by
    intro u limit hu
    cases hf _ ((abortedBy_after_iff hh).1 hu)
  refine ⟨by rw [hs], by rw [hs], fun _ => by rw [hs], fun hu => absurd hu (hb _ 0), hb _,
    fun n hn => absurd hn (h n), fun _ => ?_, ?_⟩
  · rw [hr]
    cases result <;> rfl
  · cases result <;> exact ⟨rfl, rfl⟩

end Session

/-- A pending interrupt acts like an empty budget. Both runs end, with the same store and the same
trace, except that the line of the empty budget, if the run ends with it, is that of the interrupt.
So the interrupt goes before any budget and stops the run at the first loop condition that holds;
where there is none, it changes nothing. -/
theorem interrupt_acts_as_empty_budget (s : Session) (program : List Block) :
    ∃ t u, s.interrupt.run program = some t ∧ s.exhausted.run program = some u ∧
      s.EndsLike program t u := by
  by_cases hx : ∃ n, s.Meets program n
  · obtain ⟨n, hn⟩ := hx
    obtain ⟨-, hi, he⟩ := Session.runs_of_meets hn
    exact ⟨_, _, hi, he, Session.endsLike_of_meets hn⟩
  · have hn : ∀ n, ¬ s.Meets program n := fun n hn => hx ⟨n, hn⟩
    obtain ⟨result, c, hh, hf, hr⟩ := Session.runs_of_not_meets hn
    exact ⟨_, _, hr s.interrupt rfl, hr s.exhausted rfl,
      Session.endsLike_of_not_meets hn hh hf (hr s.calm rfl)⟩

/-- A loop that its budget lets make two rounds is stopped before the first. -/
theorem interrupt_stops_loop_within_budget :
    ∃ t, Session.run (Session.interrupt { limits := { maxIterations := some 2 } })
        [.declareNames "x", .loop "x < 2" [.assignTo "x" "x + 1"]] = some t ∧
      t.AbortedBy .interrupted ∧ t.state.store.vars["x"]? = some 0 ∧ t.interrupted = false := by
  obtain ⟨t, u, ht, hu, h⟩ := interrupt_acts_as_empty_budget
    { limits := { maxIterations := some 2 } }
    [.declareNames "x", .loop "x < 2" [.assignTo "x" "x + 1"]]
  have hr : (Session.run (Session.exhausted { limits := { maxIterations := some 2 } })
      [.declareNames "x", .loop "x < 2" [.assignTo "x" "x + 1"]]).map
        (fun u => (u.state.halted, u.state.trace.back?, u.state.store.vars["x"]?)) =
      some (true, some (.halted (.budgetExceeded 0)), some 0) := by
    cbv
  rw [hu, Option.map_some] at hr
  obtain ⟨hh, hb, hx⟩ : u.state.halted = true ∧ _ ∧ _ := by
    simpa only [Option.some.injEq, Prod.mk.injEq] using hr
  obtain ⟨ha, -⟩ := h.lines ⟨hh, hb⟩
  exact ⟨t, ht, ha, h.store ▸ hx, h.clear.1⟩

end BlockTrace.Run
