import BlockTrace.Proofs.Run.Refinement
import Mathlib

/-! What a session remembers. Whatever was done with it before, a run starts from a cleared state;
all that it can find is an interrupt that was requested since the last run. -/
namespace BlockTrace.Run
open Program (Block)

inductive Operation
  | run (program : List Block)
  | reset
  -- An interrupt, through whichever handle: all of them share the flag of the session.
  | interrupt

/-- Some interrupt of the history has no run after it. -/
def Pending (history : List Operation) : Prop :=
  ∃ before rest, history = before ++ .interrupt :: rest ∧ ∀ program, .run program ∉ rest

/-- What an operation makes of the interrupt flag. -/
def Operation.flag (flag : Bool) : Operation → Bool
  | run _ => false
  | reset => flag
  | interrupt => true

section Pending

private theorem pending_cons_iff {op : Operation} {rest : List Operation} :
    Pending (op :: rest) ↔
      Pending rest ∨ op = .interrupt ∧ ∀ program, .run program ∉ rest := by
  constructor
  · rintro ⟨before, after, h, hr⟩
    cases before with
    | nil =>
      obtain ⟨rfl, rfl⟩ := List.cons.injEq .. ▸ h
      exact .inr ⟨rfl, hr⟩
    | cons first before =>
      obtain ⟨-, rfl⟩ := List.cons.injEq .. ▸ h
      exact .inl ⟨before, after, rfl, hr⟩
  · rintro (⟨before, after, rfl, hr⟩ | ⟨rfl, hr⟩)
    · exact ⟨op :: before, after, rfl, hr⟩
    · exact ⟨[], rest, rfl, hr⟩

theorem foldl_flag_iff (history : List Operation) (flag : Bool) :
    history.foldl Operation.flag flag = true ↔
      Pending history ∨ flag = true ∧ ∀ program, .run program ∉ history := by
  induction history generalizing flag with
  | nil => simp [Pending]
  | cons op rest ih =>
    rw [List.foldl_cons, ih, pending_cons_iff]
    cases op with
    | run program =>
      have hm : ¬ ∀ other, .run other ∉ Operation.run program :: rest :=
        fun h => h program List.mem_cons_self
      simp only [Operation.flag, hm, reduceCtorEq, false_and, and_false, or_false]
    | reset => simp [Operation.flag]
    | interrupt =>
      simp only [Operation.flag, true_and, List.mem_cons, reduceCtorEq, false_or]
      exact ⟨.inl, fun h => h.elim id fun hr => .inr hr.2⟩

end Pending

namespace Session
variable {s t u : Session} {history : List Operation}

/-- The operation leads from `s` to `t`. A run does so if it ends. -/
def Performs (s : Session) (op : Operation) (t : Session) : Prop :=
  match op with
  | .run program => s.Ends program t
  | .reset => t = s.reset
  | .interrupt => t = s.interrupt

/-- The operations, one after the other, lead from `s` to `t`. -/
def Leads (s : Session) : List Operation → Session → Prop
  | [], t => t = s
  | op :: rest, t => ∃ u, s.Performs op u ∧ u.Leads rest t

/-- A run of `s` ends exactly if one of `u` does, and leaves the same. -/
def RunsLike (s u : Session) : Prop :=
  ∀ program, (∀ t, s.Ends program t ↔ u.Ends program t) ∧ s.run program = u.run program

theorem Ends.frame {program : List Block} (h : s.Ends program t) :
    t.limits = s.limits ∧ t.interrupted = false := by
  obtain ⟨result, c, -, rfl⟩ := ends_iff.1 h
  cases result <;> exact ⟨rfl, rfl⟩

theorem Performs.frame {op : Operation} (h : s.Performs op t) :
    t.limits = s.limits ∧ t.interrupted = op.flag s.interrupted := by
  cases op with
  | run program => exact Ends.frame h
  | reset => rw [show t = s.reset from h]; exact ⟨rfl, rfl⟩
  | interrupt => rw [show t = s.interrupt from h]; exact ⟨rfl, rfl⟩

theorem Leads.frame (h : s.Leads history t) :
    t.limits = s.limits ∧ t.interrupted = history.foldl Operation.flag s.interrupted := by
  induction history generalizing s with
  | nil => rw [show t = s from h]; exact ⟨rfl, rfl⟩
  | cons op rest ih =>
    obtain ⟨u, hu, ht⟩ := h
    obtain ⟨hl, hf⟩ := hu.frame
    obtain ⟨hl', hf'⟩ := ih ht
    exact ⟨hl'.trans hl, by rw [hf', hf, List.foldl_cons]⟩

/-- Runs look at the limits and the flag of a session, and at nothing else of it. -/
theorem runFor_eq (hl : s.limits = u.limits) (hf : s.interrupted = u.interrupted) (fuel : Nat)
    (program : List Block) : s.runFor fuel program = u.runFor fuel program := by
  rw [runFor_cleared, runFor_cleared]
  rw [hl, hf]
  cases executeAll u.limits fuel program ⟨{}, u.interrupted⟩ with
  | completed c => simp [conclude, hl]
  | aborted fault c => simp [conclude, hl]
  | unfinished => rfl

theorem runsLike_of_eq (hl : s.limits = u.limits) (hf : s.interrupted = u.interrupted) :
    s.RunsLike u := by
  intro program
  have hr := fun fuel => runFor_eq hl hf fuel program
  refine ⟨fun t => ?_, ?_⟩
  · simp only [Ends, hr]
  · rw [run, run, hl, hr]

end Session

/-- A run sees nothing of what was done before it. After any history it goes as on a new session with
the same limits, which was interrupted before if the history has an interrupt with no run after it,
and else was not. -/
theorem runs_see_no_history (limits : Limits) (history : List Operation) (s : Session)
    (h : Session.Leads { limits := limits } history s) :
    (Pending history → s.RunsLike (Session.interrupt { limits := limits })) ∧
    (¬ Pending history → s.RunsLike { limits := limits }) := by
  obtain ⟨hl, hf⟩ := h.frame
  have hp : s.interrupted = true ↔ Pending history := by
    rw [hf, foldl_flag_iff]
    simp
  exact ⟨fun h => Session.runsLike_of_eq hl (hp.2 h),
    fun h => Session.runsLike_of_eq hl (Bool.eq_false_iff.2 (mt hp.1 h))⟩

/-- After a run that was aborted, an interrupt and a reset the next run is interrupted. An interrupt
before a run does nothing to the next one, which goes on to a fault of its own. -/
theorem interrupt_reaches_next_run_only :
    (∃ s t, Session.Leads {} [.run [.declareNames "x, x"], .interrupt, .reset] s ∧
      Pending [.run [.declareNames "x, x"], .interrupt, .reset] ∧
      s.Ends [.loop "0 < 1" [.declareNames "y"]] t ∧ t.AbortedBy .interrupted) ∧
    ∃ s t, Session.Leads {} [.interrupt, .run [.loop "0 < 1" []]] s ∧
      ¬ Pending [.interrupt, .run [.loop "0 < 1" []]] ∧
      s.Ends [.loop "0 < 1" [.declareNames "y"]] t ∧
      t.AbortedBy (.store (.duplicateVariable "y")) := by
  constructor
  · obtain ⟨u, hu, -⟩ : ∃ u, Session.Ends {} [.declareNames "x, x"] u ∧
        u.AbortedBy (.store (.duplicateVariable "x")) :=
      Session.exists_ends_abortedBy (by cbv : (Session.runFor 1 {} _).map _ = _)
    obtain ⟨t, ht, ha⟩ : ∃ t, Session.Ends (Session.interrupt {})
        [.loop "0 < 1" [.declareNames "y"]] t ∧ t.AbortedBy .interrupted :=
      Session.exists_ends_abortedBy (by cbv : (Session.runFor 1 _ _).map _ = _)
    have hs : Session.Leads {} [.run [.declareNames "x, x"], .interrupt, .reset]
        u.interrupt.reset :=
      ⟨u, hu, u.interrupt, rfl, _, rfl, rfl⟩
    have hp : Pending [.run [.declareNames "x, x"], .interrupt, .reset] :=
      ⟨[.run [.declareNames "x, x"]], [.reset], rfl, by simp⟩
    have hl := (runs_see_no_history {} _ _ hs).1 hp [.loop "0 < 1" [.declareNames "y"]]
    exact ⟨_, t, hs, hp, (hl.1 t).2 ht, ha⟩
  · obtain ⟨u, hu, -⟩ : ∃ u, Session.Ends (Session.interrupt {}) [.loop "0 < 1" []] u ∧
        u.AbortedBy .interrupted :=
      Session.exists_ends_abortedBy (by cbv : (Session.runFor 1 _ _).map _ = _)
    obtain ⟨t, ht, ha⟩ : ∃ t, Session.Ends {} [.loop "0 < 1" [.declareNames "y"]] t ∧
        t.AbortedBy (.store (.duplicateVariable "y")) :=
      Session.exists_ends_abortedBy (by cbv : (Session.runFor 2 {} _).map _ = _)
    have hs : Session.Leads {} [.interrupt, .run [.loop "0 < 1" []]] u :=
      ⟨Session.interrupt {}, rfl, u, hu, rfl⟩
    have hp : ¬ Pending [.interrupt, .run [.loop "0 < 1" []]] := by
      intro hp
      cases (foldl_flag_iff _ false).2 (.inl hp)
    have hl := (runs_see_no_history {} _ _ hs).2 hp [.loop "0 < 1" [.declareNames "y"]]
    exact ⟨u, t, hs, hp, (hl.1 t).2 ht, ha⟩

end BlockTrace.Run
