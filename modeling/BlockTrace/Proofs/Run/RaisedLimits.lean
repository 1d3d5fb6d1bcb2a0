import BlockTrace.Proofs.Run.Refinement
import BlockTrace.Proofs.Run.Step
import Mathlib

/-! Two runs of a program under different limits. Until a limit stops the run that has the lower
ones, both do the same. -/
namespace BlockTrace.Run
open Program (Block Parameters)
open Machine (running stopped Reaches)

/-- No limit of `a` is above that of `b`. To have no budget is the largest budget. -/
structure Limits.Within (a b : Limits) : Prop where
  iterations : ∀ n, b.maxIterations = some n → ∃ k, a.maxIterations = some k ∧ k ≤ n
  length : a.maxArrayLength ≤ b.maxArrayLength

/-- A limit is what caused the fault. -/
def Fault.ofLimit : Fault → Bool
  | budgetExceeded _ => true
  | store (.arrayTooLarge _ _) => true
  | _ => false

namespace Outcome

/-- The trace of the outcome, if it has one, begins with the trace of `c`. -/
def From (c : Config) : Outcome → Prop
  | completed d => Extends c d
  | aborted _ d => Extends c d
  | unfinished => True

/-- `a` is `b`, or a limit cut `a` short where `b` went on. -/
def CutFrom (a b : Outcome) : Prop :=
  a = b ∨ ∃ fault c, a = aborted fault c ∧ fault.ofLimit = true ∧ b.From c

variable {a b o : Outcome} {c d : Config} {f g : Config → Outcome}

private theorem From.of_extends (h : Extends c d) (ho : o.From d) : o.From c := by
  cases o with
  | completed e => exact h.trans ho
  | aborted fault e => exact h.trans ho
  | unfinished => trivial

theorem From.andThen (h : o.From c) (hf : ∀ d, (f d).From d) : (o.andThen f).From c := by
  cases o with
  | completed d => exact (hf d).of_extends h
  | aborted fault d => exact h
  | unfinished => trivial

theorem CutFrom.refl (o : Outcome) : o.CutFrom o :=
  .inl rfl

theorem CutFrom.andThen (h : a.CutFrom b) (hf : ∀ c, (f c).CutFrom (g c))
    (hg : ∀ c, (g c).From c) : (a.andThen f).CutFrom (b.andThen g) := by
  rcases h with rfl | ⟨fault, c, rfl, hl, hc⟩
  · cases a with
    | completed c => exact hf c
    | aborted fault c => exact .refl _
    | unfinished => exact .refl _
  · exact .inr ⟨fault, c, rfl, hl, hc.andThen hg⟩

end Outcome

section Trace
variable {limits : Limits} {rest : List Block} {m : Machine} {o : Outcome}

theorem Arrives.from_config (h : Arrives limits m rest o) : o.From m.config := by
  cases o with
  | completed d => exact Reaches.extends h
  | aborted fault d => exact Reaches.extends h
  | unfinished => trivial

private theorem execute_from (limits : Limits) (fuel : Nat) (block : Block) (c : Config) :
    (execute limits fuel block c).From c := by
  rw [← executeAll_singleton]
  exact (executeAll_arrives limits fuel [block] [] c).from_config

private theorem repeatWhile_from {p : Parameters} {condition : String}
    (h : require p .condition = .ok condition) (body : List Block) (limits : Limits)
    (fuel rounds : Nat) (c : Config) :
    (repeatWhile limits condition (executeAll limits fuel body) rounds c).From c := by
  have ha : Arrives limits (running [.whileLoop p body] c) []
      (repeatWhile limits condition (executeAll limits fuel body) rounds c) :=
    repeatWhile_arrives h _ (executeAll_arrives limits fuel body _) rounds c
  exact ha.from_config

end Trace

section Within
variable {a b : Limits}

private theorem store_declareArray_within {low high : Nat} (h : low ≤ high) (store : Store)
    (name : String) (size : Int32) :
    store.declareArray name size low = store.declareArray name size high ∨
      store.declareArray name size low = .error (.arrayTooLarge size low) := by
  rw [Store.declareArray_eq, Store.declareArray_eq]
  by_cases hn : name ∈ store.arrays
  · exact .inl (by simp only [hn, if_true])
  · by_cases hz : size.toInt ≤ 0
    · exact .inl (by simp only [hn, hz, if_true, if_false])
    · by_cases hs : low < size.toInt.toNat
      · exact .inr (by simp only [hn, hz, hs, if_true, if_false])
      · have hs' : ¬ high < size.toInt.toNat := by omega
        exact .inl (by simp only [hn, hz, hs, hs', if_false])

private theorem declareArray_within {low high : Nat} (h : low ≤ high) (p : Parameters)
    (store : Store) :
    declareArray low p store = declareArray high p store ∨
      ∃ fault, declareArray low p store = .error fault ∧ fault.ofLimit = true := by
  unfold declareArray
  cases require p .name with
  | error fault => exact .inl rfl
  | ok name =>
    cases requireInteger p .size (.invalidNumber .size) with
    | error fault => exact .inl rfl
    | ok size =>
      simp only [ok_bind]
      rcases store_declareArray_within h store name size with he | he
      · exact .inl (by rw [he])
      · exact .inr ⟨_, by rw [he]; rfl, rfl⟩

/-- A block that is no loop does the same under both limits, unless the lower one stops it. -/
theorem advance_within (h : a.Within b) (block : Block) (hk : ∀ p body, block ≠ .whileLoop p body)
    (c : Config) :
    advance a block c = advance b block c ∨
      ∃ fault, advance a block c = .fail fault c ∧ fault.ofLimit = true := by
  cases block with
  | declareArray p =>
    rcases declareArray_within h.length p c.state.store with he | ⟨fault, he, hl⟩
    · exact .inl (by rw [advance_declareArray, advance_declareArray, he])
    · exact .inr ⟨fault, by rw [advance_declareArray, he]; rfl, hl⟩
  | whileLoop p body => exact absurd rfl (hk p body)
  | _ => exact .inl rfl

/-- The check before a round finds the same under both limits, unless the lower budget is spent. -/
theorem beginIteration_within (h : a.Within b) (c : Config) :
    beginIteration a c = beginIteration b c ∨
      ∃ n, beginIteration a c = (c.count, some (.budgetExceeded n)) := by
  rcases beginIteration_cases a c with ⟨hi, ha⟩ | ⟨-, n, -, -, ha⟩ | ⟨hi, hn, ha⟩
  · rcases beginIteration_cases b c with ⟨-, hb⟩ | ⟨hi', -⟩ | ⟨hi', -⟩
    · exact .inl (ha.trans hb.symm)
    · cases hi.symm.trans hi'
    · cases hi.symm.trans hi'
  · exact .inr ⟨n, ha⟩
  · rcases beginIteration_cases b c with ⟨hi', -⟩ | ⟨-, k, hk, hle, -⟩ | ⟨-, -, hb⟩
    · cases hi.symm.trans hi'
    · obtain ⟨n, hn', hnk⟩ := h.iterations k hk
      exact absurd (hn n hn') (by omega)
    · exact .inl (ha.trans hb.symm)

private theorem repeatWhile_cutFrom (h : a.Within b) (condition : String) {f g : Config → Outcome}
    (hf : ∀ c, (f c).CutFrom (g c))
    (hg : ∀ fuel c, (repeatWhile b condition g fuel c).From c) (fuel : Nat) (c : Config) :
    (repeatWhile a condition f fuel c).CutFrom (repeatWhile b condition g fuel c) := by
  induction fuel generalizing c with
  | zero => exact .refl _
  | succ fuel ih =>
    have hc := hg (fuel + 1) c
    rw [repeatWhile_succ] at hc
    rw [repeatWhile_succ, repeatWhile_succ]
    cases ht : test c.state.store condition with
    | error fault => exact .refl _
    | ok holds =>
      cases holds with
      | false => exact .refl _
      | true =>
        rw [ht] at hc
        rcases beginIteration_within h c with he | ⟨n, he⟩
        · rw [he]
          rcases beginIteration b c with ⟨d, _ | fault⟩
          · exact (hf _).andThen ih (hg fuel)
          · exact .refl _
        · rw [he]
          exact .inr ⟨_, _, rfl, rfl, hc⟩

/-- Under lower limits blocks do the same, unless one of the limits cuts them short. -/
theorem executeAll_cutFrom (h : a.Within b) (fuel : Nat) (blocks : List Block) (c : Config) :
    (executeAll a fuel blocks c).CutFrom (executeAll b fuel blocks c) := by
  refine blocks_induction
    (P := fun blocks => ∀ c, (executeAll a fuel blocks c).CutFrom (executeAll b fuel blocks c))
    (Q := fun block => ∀ c, (execute a fuel block c).CutFrom (execute b fuel block c))
    ?_ ?_ ?_ ?_ blocks c
  · intro c
    rw [executeAll_nil, executeAll_nil]
    exact .refl _
  · intro block rest hb hr c
    rw [executeAll_cons, executeAll_cons]
    exact (hb c).andThen hr fun d => (executeAll_arrives b fuel rest [] d).from_config
  · intro p body hb c
    rw [execute, execute]
    cases hr : require p .condition with
    | error fault => exact .refl _
    | ok condition =>
      exact repeatWhile_cutFrom h condition hb (repeatWhile_from hr body b fuel) fuel c
  · intro block hk hf c
    rcases advance_within h block hk c with he | ⟨fault, he, hl⟩
    · rw [execute_eq_finish a fuel c block hk, execute_eq_finish b fuel c block hk, he]
      cases ha : advance b block c with
      | fail fault d => exact .refl _
      | go front d => exact hf front (mem_fronts_of_advance ha) d
    · refine .inr ⟨fault, c, ?_, hl, execute_from b fuel block c⟩
      rw [execute_eq_finish a fuel c block hk, he]
      rfl

end Within

namespace Session
variable {s s' t t' : Session} {program : List Block} {fuel : Nat}

/-- A run that no limit stops is the same under higher limits. -/
theorem runFor_of_within (hw : s.limits.Within s'.limits) (hi : s'.interrupted = s.interrupted)
    (h : s.runFor fuel program = some t)
    (hl : ∀ fault, t.AbortedBy fault → fault.ofLimit = false) :
    s'.runFor fuel program = some { s' with state := t.state, interrupted := false } := by
  obtain ⟨result, c, hx, rfl⟩ := runFor_eq_some_iff.1 h
  have hc := executeAll_cutFrom hw fuel program ⟨{}, s.interrupted⟩
  rw [hx] at hc
  rcases hc with he | ⟨fault, d, he, hf, -⟩
  · refine runFor_eq_some_iff.2 ⟨result, c, hi ▸ he.symm, ?_⟩
    cases result <;> rfl
  · cases result with
    | none => cases he
    | some other =>
      cases he
      cases hf.symm.trans (hl fault (abortedBy_after_some s fault c))

private theorem extends_of_from {result : Option Fault} {c d : Config}
    (h : (Outcome.ofResult result d).From c) : Extends c d := by
  cases result <;> exact h

private theorem trace_after (s : Session) (result : Option Fault) (c : Config) :
    c.state.trace.toList <+: (s.after result c).state.trace.toList := by
  cases result with
  | none => exact List.prefix_refl _
  | some fault => exact ⟨[.halted fault], by simp [after, State.halt]⟩

/-- The last line aside, a run's trace stands at the front of the trace under higher limits. -/
theorem dropLast_prefix_of_within (hw : s.limits.Within s'.limits)
    (hi : s'.interrupted = s.interrupted) (h : s.runFor fuel program = some t)
    (h' : s'.runFor fuel program = some t') :
    t.state.trace.toList.dropLast <+: t'.state.trace.toList := by
  obtain ⟨result, c, hx, rfl⟩ := runFor_eq_some_iff.1 h
  obtain ⟨result', c', hx', rfl⟩ := runFor_eq_some_iff.1 h'
  have hc := executeAll_cutFrom hw fuel program ⟨{}, s.interrupted⟩
  rw [hi] at hx'
  rw [hx, hx'] at hc
  rcases hc with he | ⟨fault, d, he, -, hd⟩
  · obtain ⟨rfl, rfl⟩ := Outcome.ofResult_inj he
    have hs : (s.after result c).state = (s'.after result c).state := by cases result <;> rfl
    rw [hs]
    exact List.dropLast_prefix _
  · obtain ⟨rfl, rfl⟩ : result = some fault ∧ c = d := Outcome.ofResult_inj he
    have ht : (s.after (some fault) c).state.trace.toList.dropLast = c.state.trace.toList := by
      simp [after, State.halt]
    rw [ht]
    exact List.IsPrefix.trans (extends_of_from hd) (trace_after s' result' c')

private theorem fuel_le_of_within (hw : s.limits.Within s'.limits)
    (hu : ∀ n, s.limits.maxIterations = some n → n < 2 ^ 64 - 1) :
    s.limits.fuel ≤ s'.limits.fuel := by
  unfold Limits.fuel
  cases hb : s'.limits.maxIterations with
  | some n =>
    obtain ⟨k, hk, hle⟩ := hw.iterations n hb
    rw [hk]
    exact Nat.succ_le_succ hle
  | none =>
    cases ha : s.limits.maxIterations with
    | some k =>
      have hk := hu k ha
      dsimp only
      omega
    | none => exact Nat.le_refl _

end Session

/-- Raising limits only extends a run. A run that ends, and is not stopped by a limit, ends in the
same state under higher limits; and in any case its trace without the last line is where the trace
under higher limits begins, if that run ends. -/
theorem raised_limits_extend_run (s s' : Session) (program : List Block)
    (hw : s.limits.Within s'.limits) (hi : s'.interrupted = s.interrupted)
    (hu : ∀ n, s.limits.maxIterations = some n → n < 2 ^ 64 - 1) :
    (∀ t, (∀ fault, t.AbortedBy fault → fault.ofLimit = false) →
      (s.Ends program t →
        s'.Ends program { s' with state := t.state, interrupted := false }) ∧
      (s.run program = some t →
        s'.run program = some { s' with state := t.state, interrupted := false })) ∧
    ∀ t t', s.Ends program t → s'.Ends program t' →
      t.state.trace.toList.dropLast <+: t'.state.trace.toList := by
  refine ⟨fun t hl => ⟨?_, fun h => ?_⟩, ?_⟩
  · rintro ⟨fuel, h⟩
    exact ⟨fuel, Session.runFor_of_within hw hi h hl⟩
  · exact Session.runFor_mono (Session.runFor_of_within hw hi h hl)
      (Session.fuel_le_of_within hw hu)
  · rintro t t' ⟨fuel, h⟩ ⟨fuel', h'⟩
    exact Session.dropLast_prefix_of_within hw hi
      (Session.runFor_mono h (Nat.le_max_left fuel fuel'))
      (Session.runFor_mono h' (Nat.le_max_right fuel fuel'))

/-- The array is too long for the lower limit. Under the higher ones the loop goes on, and stops at
the second declaration. -/
theorem raised_limits_extend_loop :
    (⟨some 1, 2⟩ : Limits).Within ⟨none, 3⟩ ∧
    ∃ t t', Session.run { limits := ⟨some 1, 2⟩ } [.loop "0 < 1" [.declareSized "a" "3"]] = some t ∧
      Session.run { limits := ⟨none, 3⟩ } [.loop "0 < 1" [.declareSized "a" "3"]] = some t' ∧
      t.state.trace.back? = some (.halted (.store (.arrayTooLarge 3 2))) ∧
      t'.state.trace.back? = some (.halted (.store (.duplicateArray "a"))) ∧
      t.state.trace.toList.dropLast <+: t'.state.trace.toList := by
  have hw : (⟨some 1, 2⟩ : Limits).Within ⟨none, 3⟩ := ⟨nofun, by decide⟩
  have h : (Session.run { limits := ⟨some 1, 2⟩ } [.loop "0 < 1" [.declareSized "a" "3"]]).map
      (fun t => t.state.trace.back?) = some (some (.halted (.store (.arrayTooLarge 3 2)))) := by
    cbv
  have h' : (Session.run { limits := ⟨none, 3⟩ } [.loop "0 < 1" [.declareSized "a" "3"]]).map
      (fun t => t.state.trace.back?) = some (some (.halted (.store (.duplicateArray "a")))) := by
    cbv
  obtain ⟨t, hr, hb⟩ := Option.map_eq_some_iff.1 h
  obtain ⟨t', hr', hb'⟩ := Option.map_eq_some_iff.1 h'
  have he := raised_limits_extend_run { limits := ⟨some 1, 2⟩ } { limits := ⟨none, 3⟩ }
    [.loop "0 < 1" [.declareSized "a" "3"]] hw rfl (by rintro n ⟨rfl⟩; decide)
  exact ⟨hw, t, t', hr, hr', hb, hb', he.2 t t' ⟨_, hr⟩ ⟨_, hr'⟩⟩

end BlockTrace.Run
