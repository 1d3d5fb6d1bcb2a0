import BlockTrace.Proofs.Run.Refinement
import BlockTrace.Proofs.Run.Step
import Mathlib

/-! Runs within a budget of loop iterations. All loops share the budget, so every such run ends;
and the machine keeps count of the rounds, which says when the budget stops it. -/
namespace BlockTrace.Run
open Program (Block Parameters)
open Machine (running stopped step)

/-- The piece has ended, and if it completed, with a count of iterations from `start` up to
`limit`. -/
def Outcome.Bounded (start limit : Nat) : Outcome → Prop
  | completed d => start ≤ d.state.iterations ∧ d.state.iterations ≤ limit
  | aborted _ _ => True
  | unfinished => False

section Bounded
variable {limits : Limits} {limit fuel : Nat} {block : Block} {c : Config} {o : Outcome}

theorem Outcome.Bounded.ne_unfinished {start : Nat} (h : o.Bounded start limit) :
    o ≠ unfinished := by
  rintro rfl
  exact h

theorem Outcome.Bounded.weaken {start start' : Nat} (hs : start ≤ start')
    (h : o.Bounded start' limit) : o.Bounded start limit := by
  cases o with
  | completed d => exact ⟨Nat.le_trans hs h.1, h.2⟩
  | aborted fault d => trivial
  | unfinished => exact h

theorem Outcome.Bounded.andThen {start : Nat} {next : Config → Outcome}
    (h : o.Bounded start limit)
    (hn : ∀ d, start ≤ d.state.iterations → d.state.iterations ≤ limit →
      (next d).Bounded d.state.iterations limit) : (o.andThen next).Bounded start limit := by
  cases o with
  | completed d => exact (hn d h.1 h.2).weaken h.1
  | aborted fault d => trivial
  | unfinished => exact h

/-- A loop whose body ends within the budget ends within it: each round that is begun takes one
from what is left of the budget, so that the fuel lasts. -/
theorem repeatWhile_bounded (hl : limits.maxIterations = some limit) (condition : String)
    {body : Config → Outcome}
    (hb : ∀ d, d.state.iterations ≤ limit → (body d).Bounded d.state.iterations limit)
    (hc : c.state.iterations ≤ limit) (hf : limit < fuel + c.state.iterations) :
    (repeatWhile limits condition body fuel c).Bounded c.state.iterations limit := by
  induction fuel generalizing c with
  | zero => omega
  | succ fuel ih =>
    rw [repeatWhile_succ]
    cases test c.state.store condition with
    | error fault => trivial
    | ok holds =>
      cases holds with
      | false => exact ⟨Nat.le_refl _, hc⟩
      | true =>
        rcases beginIteration_cases limits c with ⟨-, hi⟩ | ⟨-, n, -, -, hi⟩ | ⟨-, hn, hi⟩
        · rw [hi]; trivial
        · rw [hi]; trivial
        · have hs : (c.count.emit (.looped condition true)).state.iterations =
            c.state.iterations + 1 := rfl
          have hr := hb (c.count.emit (.looped condition true)) (hn limit hl)
          rw [hi]
          refine Outcome.Bounded.weaken (hs ▸ Nat.le_succ _) (hr.andThen fun d hd hd' => ?_)
          exact ih hd' (by omega)

private theorem loopHolds_eq_false (hk : ∀ p body, block ≠ .whileLoop p body) (c : Config) :
    loopHolds block c = false := by
  cases block with
  | whileLoop p body => exact absurd rfl (hk p body)
  | _ => rfl

theorem execute_bounded_of_fronts (hk : ∀ p body, block ≠ .whileLoop p body)
    (hf : ∀ front ∈ fronts block, ∀ d, d.state.iterations ≤ limit →
      (executeAll limits fuel front d).Bounded d.state.iterations limit)
    (hc : c.state.iterations ≤ limit) :
    (execute limits fuel block c).Bounded c.state.iterations limit := by
  have hq : (advance limits block c).Quiet c := advance_quiet (loopHolds_eq_false hk c)
  rw [execute_eq_finish limits fuel c block hk]
  cases ha : advance limits block c with
  | fail fault d => trivial
  | go front d =>
    rw [ha] at hq
    have hi : d.state.iterations = c.state.iterations := Quiet.iterations hq
    rw [← hi]
    exact hf front (mem_fronts_of_advance ha) d (hi ▸ hc)

/-- Fuel for one test more than the budget allows is enough for any program. -/
theorem executeAll_bounded (hl : limits.maxIterations = some limit) (hf : limit < fuel)
    (blocks : List Block) (hc : c.state.iterations ≤ limit) :
    (executeAll limits fuel blocks c).Bounded c.state.iterations limit := by
  refine blocks_induction
    (P := fun blocks => ∀ c : Config, c.state.iterations ≤ limit →
      (executeAll limits fuel blocks c).Bounded c.state.iterations limit)
    (Q := fun block => ∀ c : Config, c.state.iterations ≤ limit →
      (execute limits fuel block c).Bounded c.state.iterations limit)
    ?_ ?_ ?_ ?_ blocks c hc
  · intro c hc
    rw [executeAll_nil]
    exact ⟨Nat.le_refl _, hc⟩
  · intro block rest hb hr c hc
    rw [executeAll_cons]
    exact (hb c hc).andThen fun d _ hd => hr d hd
  · intro p body hb c hc
    rw [execute]
    cases require p .condition with
    | error fault => trivial
    | ok condition => exact repeatWhile_bounded hl condition hb hc (by omega)
  · intro block hk hp c hc
    exact execute_bounded_of_fronts hk hp hc

end Bounded

/-- The next block is a loop and its condition holds. -/
def Machine.loopHolds : Machine → Bool
  | running (block :: _) c => Run.loopHolds block c
  | _ => false

/-- How many of the first `n` steps find the condition of a loop to be true. -/
def trueTests (limits : Limits) (m : Machine) : Nat → Nat
  | 0 => 0
  | n + 1 => trueTests limits m n + ((step limits)^[n] m).loopHolds.toNat

/-- What a run with a budget keeps true, if loop conditions were true `tests` times so far. While it
goes on, each of these times is a round in the trace and an iteration on the count. -/
def Counted (limit : Nat) (flag : Bool) (tests : Nat) : Machine → Prop
  | .running _ c => c.state.halted = false ∧ c.interrupt = flag ∧ c.state.rounds = tests ∧
      c.state.iterations = tests ∧ tests ≤ limit
  | .stopped result c => c.state.halted = false ∧ c.state.rounds ≤ limit ∧
      c.state.iterations ≤ limit + 1 ∧
      (flag = false → (result = some (.budgetExceeded limit) ↔ tests = limit + 1))

section Counted
variable {limits : Limits} {limit tests : Nat} {flag : Bool} {c d : Config} {m : Machine}

theorem rounds_halt (s : State) (fault : Fault) : (s.halt fault).rounds = s.rounds := by
  simp [State.rounds, State.halt, Event.isRound]

private theorem counted_quiet {block : Block} {rest : List Block}
    (h : loopHolds block c = false) (hc : Counted limit flag tests (running (block :: rest) c)) :
    Counted limit flag tests (step limits (running (block :: rest) c)) := by
  obtain ⟨hh, hi, hr, hn, ht⟩ := hc
  have hq : (advance limits block c).Quiet c := advance_quiet h
  cases ha : advance limits block c with
  | go front d =>
    rw [ha] at hq
    have hd : Quiet c d := hq
    rw [Machine.step_of_go ha]
    exact ⟨hd.halted.trans hh, hd.interrupt.trans hi, hd.rounds.trans hr, hd.iterations.trans hn,
      ht⟩
  | fail fault d =>
    rw [ha] at hq
    obtain ⟨hf, hd⟩ := hq
    rw [Machine.step_of_fail ha]
    refine ⟨hd.halted.trans hh, by rw [hd.rounds]; omega, by rw [hd.iterations]; omega, ?_⟩
    intro _
    constructor
    · rintro ⟨rfl⟩
      cases hf
    · intro he
      omega

private theorem counted_round {block : Block} {rest : List Block}
    (hl : limits.maxIterations = some limit) (h : loopHolds block c = true)
    (hc : Counted limit flag tests (running (block :: rest) c)) :
    Counted limit flag (tests + 1) (step limits (running (block :: rest) c)) := by
  obtain ⟨hh, hi, hr, hn, ht⟩ := hc
  have hrl : c.state.rounds ≤ limit := by omega
  have hnl : c.state.iterations ≤ limit := by omega
  rcases advance_round limits h with
    ⟨hx, ha⟩ | ⟨hx, limit', hl', hm, ha⟩ | ⟨hx, hm, front, condition, ha⟩
  · rw [Machine.step_of_fail ha]
    refine ⟨hh, hrl, Nat.le_succ_of_le hnl, ?_⟩
    rintro rfl
    cases hi.symm.trans hx
  · obtain rfl : limit = limit' := Option.some.inj (hl.symm.trans hl')
    have he : tests = limit := by omega
    rw [Machine.step_of_fail ha]
    refine ⟨hh, hrl, Nat.succ_le_succ hnl, ?_⟩
    intro _
    simp [he]
  · rw [Machine.step_of_go ha]
    have hlt := hm limit hl
    refine ⟨hh, hi, ?_, congrArg (· + 1) hn, by omega⟩
    rw [rounds_emit_looped]
    exact congrArg (· + 1) hr

theorem step_counted (hl : limits.maxIterations = some limit) (hc : Counted limit flag tests m) :
    Counted limit flag (tests + m.loopHolds.toNat) (step limits m) := by
  rcases m with ⟨_ | ⟨block, rest⟩, c⟩ | ⟨result, c⟩
  · obtain ⟨hh, -, hr, hn, ht⟩ := hc
    refine ⟨hh, by omega, by omega, ?_⟩
    intro _
    constructor
    · nofun
    · intro he
      simp [Machine.loopHolds] at he
      omega
  · cases h : loopHolds block c with
    | false => simpa [Machine.loopHolds, h] using counted_quiet h hc
    | true => simpa [Machine.loopHolds, h] using counted_round hl h hc
  · exact hc

theorem iterate_counted (hl : limits.maxIterations = some limit) (hc : Counted limit flag 0 m)
    (n : Nat) : Counted limit flag (trueTests limits m n) ((step limits)^[n] m) := by
  induction n with
  | zero => exact hc
  | succ n ih =>
    rw [Function.iterate_succ_apply']
    exact step_counted hl ih

private theorem Counted.iterations_le (hc : Counted limit flag tests m) :
    m.config.state.iterations ≤ limit + 1 := by
  rcases m with ⟨pending, c⟩ | ⟨result, c⟩
  · obtain ⟨-, -, -, hn, ht⟩ := hc
    exact Nat.le_succ_of_le (Nat.le_trans (Nat.le_of_eq hn) ht)
  · exact hc.2.2.1

end Counted

namespace Session
variable {s : Session} {program : List Block} {limit : Nat}

theorem machine_counted (s : Session) (program : List Block) (limit : Nat) :
    Counted limit s.interrupted 0 (s.machine program) :=
  ⟨rfl, rfl, rfl, rfl, Nat.zero_le limit⟩

theorem executeAll_of_budget (hl : s.limits.maxIterations = some limit) (program : List Block) :
    ∃ result c, ∀ fuel, limit < fuel →
      executeAll s.limits fuel program ⟨{}, s.interrupted⟩ = .ofResult result c := by
  have hb : Outcome.Bounded 0 limit
      (executeAll s.limits (limit + 1) program ⟨{}, s.interrupted⟩) :=
    executeAll_bounded hl (Nat.lt_succ_self limit) program (Nat.zero_le limit)
  obtain ⟨result, c, hx⟩ := Outcome.exists_ofResult hb.ne_unfinished
  refine ⟨result, c, fun fuel hf => ?_⟩
  rw [(executeAll_below hf program _).eq hb.ne_unfinished, hx]

/-- The budget stops a run exactly if loop conditions are true once more than it allows. -/
theorem budgetExceeded_iff {result : Option Fault} {c : Config}
    (hl : s.limits.maxIterations = some limit) (hi : s.interrupted = false)
    (hr : Machine.Reaches s.limits (s.machine program) (stopped result c)) :
    result = some (.budgetExceeded limit) ↔
      ∃ n, trueTests s.limits (s.machine program) n = limit + 1 := by
  have hc := iterate_counted hl (machine_counted s program limit)
  constructor
  · obtain ⟨n, hn⟩ := hr
    have hs := hc n
    rw [hn] at hs
    exact fun h => ⟨n, (hs.2.2.2 hi).1 h⟩
  · rintro ⟨k, hk⟩
    have hs := hc k
    rw [hk] at hs
    rcases hm : (step s.limits)^[k] (s.machine program) with ⟨pending, d⟩ | ⟨other, d⟩
    · rw [hm] at hs
      obtain ⟨-, -, -, -, ht⟩ := hs
      omega
    · rw [hm] at hs
      obtain ⟨rfl, -⟩ := Machine.stopped_unique hr ⟨k, hm⟩
      exact (hs.2.2.2 hi).2 rfl

end Session

/-- A run with a budget ends. All its loops together begin at most as many rounds as the budget
allows, the count of iterations gets at most one further and so stays below `2 ^ 64`, and without an
interrupt the budget stops the run exactly if loop conditions are true once more than it allows. -/
theorem run_keeps_within_budget (s : Session) (program : List Block) (limit : Nat)
    (hl : s.limits.maxIterations = some limit) (hu : limit < 2 ^ 64 - 1) :
    ∃ t, s.run program = some t ∧ (∀ fuel, limit < fuel → s.runFor fuel program = some t) ∧
      t.state.rounds ≤ limit ∧ t.state.iterations ≤ limit + 1 ∧
      (∀ n, ((step s.limits)^[n] (s.machine program)).config.state.iterations ≤ limit + 1 ∧
        ((step s.limits)^[n] (s.machine program)).config.state.iterations < 2 ^ 64) ∧
      (s.interrupted = false → (t.AbortedBy (.budgetExceeded limit) ↔
        ∃ n, trueTests s.limits (s.machine program) n = limit + 1)) := by
  obtain ⟨result, c, hx⟩ := Session.executeAll_of_budget hl program
  have hr : Machine.Reaches s.limits (s.machine program) (stopped result c) :=
    reaches_of_executeAll (hx (limit + 1) (Nat.lt_succ_self limit))
  have hf : ∀ fuel, limit < fuel → s.runFor fuel program = some (s.after result c) :=
    fun fuel h => Session.runFor_eq_some_iff.2 ⟨result, c, hx fuel h, rfl⟩
  have hc := iterate_counted hl (Session.machine_counted s program limit)
  obtain ⟨n, hn⟩ := hr
  obtain ⟨hh, hrounds, hcount, -⟩ : Counted limit s.interrupted _ (stopped result c) := hn ▸ hc n
  refine ⟨s.after result c, ?_, hf, ?_, ?_, ?_, ?_⟩
  · rw [Session.run, Limits.fuel, hl]
    exact hf (limit + 1) (Nat.lt_succ_self limit)
  · cases result with
    | none => exact hrounds
    | some fault => exact (rounds_halt c.state fault).symm ▸ hrounds
  · cases result <;> exact hcount
  · intro k
    have hk := (hc k).iterations_le
    exact ⟨hk, by omega⟩
  · intro hi
    rw [Session.abortedBy_after_iff hh]
    exact Session.budgetExceeded_iff hl hi ⟨n, hn⟩

/-- Two nested loops that would never end share a budget of two rounds. -/
theorem nested_loops_share_budget :
    (({ maxIterations := some 2 } : Limits).maxIterations = some 2 ∧ 2 < 2 ^ 64 - 1) ∧
    ∃ t, Session.run { limits := { maxIterations := some 2 } }
        [.loop "0 < 1" [.loop "1 > 0" []]] = some t ∧
      t.state.rounds ≤ 2 ∧ t.state.iterations ≤ 3 ∧ t.AbortedBy (.budgetExceeded 2) := by
  obtain ⟨t, hr, -, hrounds, hcount, -, hb⟩ := run_keeps_within_budget
    { limits := { maxIterations := some 2 } } [.loop "0 < 1" [.loop "1 > 0" []]] 2 rfl (by decide)
  exact ⟨⟨rfl, by decide⟩, t, hr, hrounds, hcount, (hb rfl).2 ⟨3, by cbv⟩⟩

end BlockTrace.Run
