import BlockTrace.Proofs.Attempt
import BlockTrace.Proofs.Run.Machine

/-! What one block can do to a configuration. Unless it is a loop whose condition holds, it adds
lines to the trace and leaves the count of iterations, the halt flag and the interrupt alone. -/
namespace BlockTrace.Run
open Program (Block Key Parameters)

/-- The test of a loop whose condition holds: a round of the loop follows. -/
def Event.isRound : Event → Bool
  | looped _ true => true
  | _ => false

/-- A fault of the check before a round. -/
def Fault.ofRound : Fault → Bool
  | budgetExceeded _ => true
  | interrupted => true
  | _ => false

section Actions

/-- What the blocks without children have in common: no event of theirs starts a round, and no
fault of theirs is one of the check before a round. -/
def Quietly (x : Except Fault Effect) : Prop :=
  Gives (fun effect => effect.event.isRound = false) (fun fault => fault.ofRound = false) x

private theorem require_gives (p : Parameters) (key : Key) :
    Gives (fun text => p.get? key = some text) (fun fault => fault.ofRound = false)
      (require p key) := by
  unfold require
  split
  next text h => exact h
  · exact rfl

private theorem requireInteger_gives {fault : Fault} (p : Parameters) (key : Key)
    (h : fault.ofRound = false) :
    Gives (fun value => p.integer? key = some value) (fun fault => fault.ofRound = false)
      (requireInteger p key fault) := by
  unfold requireInteger
  split
  next value hv => exact hv
  · exact h

private theorem store_gives {α : Type} (x : Except Store.Fault α) :
    Gives (fun a => x = .ok a) (fun fault : Fault => fault.ofRound = false) (x.mapError .store) :=
  gives_mapError x fun _ => rfl

private theorem evaluate_gives (store : Store) (text : String) :
    Gives (fun value => Expression.evaluate store.vars text.toList = .ok value)
      (fun fault => fault.ofRound = false) (evaluate store text) :=
  gives_mapError _ fun _ => rfl

private theorem test_gives (store : Store) (text : String) :
    Gives (fun holds => Condition.evaluate store.vars text.toList = .ok holds)
      (fun fault => fault.ofRound = false) (test store text) :=
  gives_mapError _ fun _ => rfl

private theorem declareName_quietly (name : String) (store : Store) :
    Quietly (declareName name store) := by
  unfold declareName
  split
  · exact rfl
  · exact (store_gives _).bind fun after _ => rfl

private theorem assign_quietly (p : Parameters) (store : Store) : Quietly (assign p store) := by
  refine (require_gives p .varName).bind fun name _ => ?_
  refine (require_gives p .expression).bind fun text _ => ?_
  split
  · refine (evaluate_gives store text).bind fun value _ => ?_
    exact (store_gives _).bind fun after _ => rfl
  · exact rfl

private theorem arithmetic_quietly (p : Parameters) (store : Store) :
    Quietly (arithmetic p store) := by
  refine (require_gives p .expression).bind fun text _ => ?_
  exact (evaluate_gives store text).bind fun value _ => rfl

private theorem declareArray_quietly (limit : Nat) (p : Parameters) (store : Store) :
    Quietly (declareArray limit p store) := by
  refine (require_gives p .name).bind fun name _ => ?_
  refine (requireInteger_gives p .size rfl).bind fun size _ => ?_
  exact (store_gives _).bind fun after _ => rfl

private theorem arrayAccess_quietly (p : Parameters) (store : Store) :
    Quietly (arrayAccess p store) := by
  refine (require_gives p .arrayName).bind fun name _ => ?_
  refine (requireInteger_gives p .index rfl).bind fun index _ => ?_
  refine (require_gives p .operation).bind fun operation _ => ?_
  refine (store_gives _).bind fun current _ => ?_
  split
  · exact rfl
  · split
    · refine (requireInteger_gives p .value rfl).bind fun value _ => ?_
      exact (store_gives _).bind fun after _ => rfl
    · exact rfl

theorem decideCondition_gives (p : Parameters) (store : Store) :
    Gives (fun _ => True) (fun fault => fault.ofRound = false) (decideCondition p store) := by
  refine (require_gives p .condition).bind fun condition _ => ?_
  exact (test_gives store condition).bind fun holds _ => trivial

end Actions

/-- `d` comes from `c` without a round of a loop. -/
structure Quiet (c d : Config) : Prop where
  trace : ∃ events : List Event, d.state.trace.toList = c.state.trace.toList ++ events ∧
    ∀ event ∈ events, event.isRound = false
  iterations : d.state.iterations = c.state.iterations
  halted : d.state.halted = c.state.halted
  interrupt : d.interrupt = c.interrupt

/-- The block makes no round: it leaves a configuration that comes quietly, and if it fails, not in
the check before a round. -/
def Advance.Quiet (c : Config) : Advance → Prop
  | .fail fault d => fault.ofRound = false ∧ Run.Quiet c d
  | .go _ d => Run.Quiet c d

section Quiet
variable {c d e : Config}

theorem Quiet.refl (c : Config) : Quiet c c :=
  ⟨⟨[], by simp, nofun⟩, rfl, rfl, rfl⟩

theorem Quiet.trans (h : Quiet c d) (h' : Quiet d e) : Quiet c e := by
  obtain ⟨events, he, hq⟩ := h.trace
  obtain ⟨more, hm, hq'⟩ := h'.trace
  refine ⟨⟨events ++ more, ?_, ?_⟩, h'.iterations.trans h.iterations, h'.halted.trans h.halted,
    h'.interrupt.trans h.interrupt⟩
  · rw [hm, he, List.append_assoc]
  · intro event hmem
    rcases List.mem_append.1 hmem with hl | hr
    · exact hq event hl
    · exact hq' event hr

theorem quiet_emit (c : Config) {event : Event} (h : event.isRound = false) :
    Quiet c (c.emit event) :=
  ⟨⟨[event], by simp [Config.emit, State.emit], by simpa using h⟩, rfl, rfl, rfl⟩

theorem quiet_apply (c : Config) {effect : Effect} (h : effect.event.isRound = false) :
    Quiet c (c.apply effect) :=
  ⟨⟨[effect.event], by simp [Config.apply, State.apply], by simpa using h⟩, rfl, rfl, rfl⟩

private theorem Advance.Quiet.of_quiet {a : Advance} (h : Run.Quiet c d) (ha : a.Quiet d) :
    a.Quiet c := by
  cases a with
  | fail fault e => exact ⟨ha.1, h.trans ha.2⟩
  | go front e => exact h.trans ha

theorem ofEffect_quiet {x : Except Fault Effect} (c : Config) (h : Quietly x) :
    (Advance.ofEffect c x).Quiet c := by
  cases x with
  | error fault => exact ⟨h, .refl c⟩
  | ok effect => exact quiet_apply c h

private theorem declareEach_quiet (interrupt : Bool) (names : List String) (state : State) :
    (Advance.ofPartly interrupt (declareEach names state)).Quiet ⟨state, interrupt⟩ := by
  induction names generalizing state with
  | nil => exact Quiet.refl _
  | cons name rest ih =>
    have hq := declareName_quietly name state.store
    rw [declareEach]
    cases hd : declareName name state.store with
    | error fault =>
      rw [hd] at hq
      exact ⟨hq, .refl _⟩
    | ok effect =>
      rw [hd] at hq
      exact .of_quiet (quiet_apply ⟨state, interrupt⟩ hq) (ih (state.apply effect))

private theorem declareVars_quiet (p : Parameters) (c : Config) :
    (Advance.ofPartly c.interrupt (declareVars p c.state)).Quiet c := by
  have hr := require_gives p .names
  unfold declareVars
  cases hn : require p .names with
  | error fault =>
    rw [hn] at hr
    exact ⟨hr, .refl c⟩
  | ok names => exact declareEach_quiet c.interrupt _ c.state

end Quiet

/-- The block is a loop and its condition holds. -/
def loopHolds (block : Block) (c : Config) : Bool :=
  match block with
  | .whileLoop p _ =>
    match decideCondition p c.state.store with
    | .ok (_, holds) => holds
    | .error _ => false
  | _ => false

/-- One more iteration on the count. -/
def Config.count (c : Config) : Config :=
  { c with state := { c.state with iterations := c.state.iterations + 1 } }

section Block
variable {limits : Limits} {block : Block} {c : Config}

/-- Everything but a loop whose condition holds makes no round. -/
theorem advance_quiet (h : loopHolds block c = false) : (advance limits block c).Quiet c := by
  cases block with
  | declareVars p =>
    rw [advance_declareVars]
    exact declareVars_quiet p c
  | assign p =>
    rw [advance_assign]
    exact ofEffect_quiet c (assign_quietly p c.state.store)
  | arithmetic p =>
    rw [advance_arithmetic]
    exact ofEffect_quiet c (arithmetic_quietly p c.state.store)
  | declareArray p =>
    rw [advance_declareArray]
    exact ofEffect_quiet c (declareArray_quietly _ p c.state.store)
  | arrayAccess p =>
    rw [advance_arrayAccess]
    exact ofEffect_quiet c (arrayAccess_quietly p c.state.store)
  | ifThen p body | ifElse p thenBranch elseBranch =>
    have hd := decideCondition_gives p c.state.store
    simp only [advance]
    rcases hx : decideCondition p c.state.store with fault | ⟨condition, _ | _⟩
    · rw [hx] at hd
      exact ⟨hd, .refl c⟩
    · exact quiet_emit c rfl
    · exact quiet_emit c rfl
  | whileLoop p body =>
    have hd := decideCondition_gives p c.state.store
    simp only [advance]
    rcases hx : decideCondition p c.state.store with fault | ⟨condition, _ | _⟩
    · rw [hx] at hd
      exact ⟨hd, .refl c⟩
    · exact quiet_emit c rfl
    · simp [loopHolds, hx] at h

/-- What the check before a round finds: an interrupt, a spent budget, or neither. -/
theorem beginIteration_cases (limits : Limits) (c : Config) :
    (c.interrupt = true ∧
      beginIteration limits c = ({ c with interrupt := false }, some .interrupted)) ∨
    (c.interrupt = false ∧ ∃ limit, limits.maxIterations = some limit ∧
      limit ≤ c.state.iterations ∧
      beginIteration limits c = (c.count, some (.budgetExceeded limit))) ∨
    (c.interrupt = false ∧
      (∀ limit, limits.maxIterations = some limit → c.state.iterations < limit) ∧
      beginIteration limits c = (c.count, none)) := by
  unfold beginIteration
  cases hi : c.interrupt with
  | true => exact .inl ⟨rfl, rfl⟩
  | false =>
    cases hl : limits.maxIterations with
    | none => exact .inr (.inr ⟨rfl, nofun, by simp [Config.count, hi]⟩)
    | some limit =>
      by_cases h : c.state.iterations + 1 ≤ limit
      · refine .inr (.inr ⟨rfl, ?_, by simp [h, Config.count, hi]⟩)
        rintro _ ⟨rfl⟩
        exact h
      · refine .inr (.inl ⟨rfl, limit, rfl, by omega, by simp [h, Config.count, hi]⟩)

/-- What a loop whose condition holds does: it fails in the check before the round, or begins the
round. -/
theorem advance_round (limits : Limits) (h : loopHolds block c = true) :
    (c.interrupt = true ∧
      advance limits block c = .fail .interrupted { c with interrupt := false }) ∨
    (c.interrupt = false ∧ ∃ limit, limits.maxIterations = some limit ∧
      limit ≤ c.state.iterations ∧
      advance limits block c = .fail (.budgetExceeded limit) c.count) ∨
    (c.interrupt = false ∧
      (∀ limit, limits.maxIterations = some limit → c.state.iterations < limit) ∧
      ∃ front condition,
        advance limits block c = .go front (c.count.emit (.looped condition true))) := by
  cases block with
  | whileLoop p body =>
    rcases hx : decideCondition p c.state.store with fault | ⟨condition, _ | _⟩
    · simp [loopHolds, hx] at h
    · simp [loopHolds, hx] at h
    · rcases beginIteration_cases limits c with ⟨hi, hb⟩ | ⟨hi, limit, hl, hc, hb⟩ | ⟨hi, hl, hb⟩
      · exact .inl ⟨hi, by simp only [advance, hx, hb]⟩
      · exact .inr (.inl ⟨hi, limit, hl, hc, by simp only [advance, hx, hb]⟩)
      · refine .inr (.inr ⟨hi, hl, body ++ [.whileLoop p body], condition, ?_⟩)
        simp only [advance, hx, hb]
  | _ => cases h

end Block

/-- How often the trace says that the condition of a loop holds. -/
def State.rounds (s : State) : Nat :=
  s.trace.toList.countP Event.isRound

section Rounds
variable {c d : Config}

theorem Quiet.rounds (h : Quiet c d) : d.state.rounds = c.state.rounds := by
  obtain ⟨events, he, hq⟩ := h.trace
  have hz : events.countP Event.isRound = 0 := by simpa [List.countP_eq_zero] using hq
  rw [State.rounds, he, List.countP_append, hz]
  rfl

theorem rounds_emit_looped (c : Config) (condition : String) :
    (c.emit (.looped condition true)).state.rounds = c.state.rounds + 1 := by
  simp [State.rounds, Config.emit, State.emit, Event.isRound]

theorem rounds_of_loopHolds {limits : Limits} {block : Block} {front : List Block}
    (h : loopHolds block c = true) (ha : advance limits block c = .go front d) :
    d.state.rounds = c.state.rounds + 1 := by
  rcases advance_round limits h with
    ⟨-, hx⟩ | ⟨-, limit, -, -, hx⟩ | ⟨-, -, more, condition, hx⟩
  · cases ha.symm.trans hx
  · cases ha.symm.trans hx
  · cases ha.symm.trans hx
    exact rounds_emit_looped c.count condition

end Rounds

/-- The trace of `d` begins with the trace of `c`. -/
def Extends (c d : Config) : Prop :=
  c.state.trace.toList <+: d.state.trace.toList

section Extends
variable {limits : Limits} {block : Block} {c d e : Config}

theorem Extends.trans (h : Extends c d) (h' : Extends d e) : Extends c e :=
  List.IsPrefix.trans h h'

theorem Extends.rounds_le (h : Extends c d) : c.state.rounds ≤ d.state.rounds :=
  h.sublist.countP_le

theorem Quiet.extends (h : Quiet c d) : Extends c d := by
  obtain ⟨events, he, -⟩ := h.trace
  exact ⟨events, he.symm⟩

def Advance.config : Advance → Config
  | .fail _ c => c
  | .go _ c => c

/-- A block takes nothing back from the trace. -/
theorem advance_extends (limits : Limits) (block : Block) (c : Config) :
    Extends c (advance limits block c).config := by
  cases h : loopHolds block c with
  | false =>
    have hq : (advance limits block c).Quiet c := advance_quiet h
    cases ha : advance limits block c with
    | fail fault d => rw [ha] at hq; exact hq.2.extends
    | go front d => rw [ha] at hq; exact Quiet.extends hq
  | true =>
    rcases advance_round limits h with ⟨-, ha⟩ | ⟨-, limit, -, -, ha⟩ | ⟨-, -, front, condition, ha⟩
    · rw [ha]; exact List.prefix_refl _
    · rw [ha]; exact List.prefix_refl _
    · rw [ha]
      refine ⟨[.looped condition true], ?_⟩
      simp [Advance.config, Config.emit, State.emit, Config.count]

namespace Machine

/-- After a step stands what the block leaves. -/
theorem config_step (limits : Limits) (block : Block) (rest : List Block) (c : Config) :
    (step limits (running (block :: rest) c)).config = (advance limits block c).config := by
  cases ha : advance limits block c with
  | fail fault d => rw [step_of_fail ha]; rfl
  | go front d => rw [step_of_go ha]; rfl

private theorem step_extends (limits : Limits) (m : Machine) :
    Extends m.config (step limits m).config := by
  rcases m with ⟨_ | ⟨block, rest⟩, c⟩ | ⟨result, c⟩
  · exact List.prefix_refl _
  · rw [config_step]
    exact advance_extends limits block c
  · exact List.prefix_refl _

theorem Reaches.extends {m m' : Machine} (h : Reaches limits m m') :
    Extends m.config m'.config := by
  obtain ⟨n, rfl⟩ := h
  induction n with
  | zero => exact List.prefix_refl _
  | succ n ih =>
    rw [Function.iterate_succ_apply']
    exact ih.trans (step_extends limits _)

end Machine

end Extends

end BlockTrace.Run
