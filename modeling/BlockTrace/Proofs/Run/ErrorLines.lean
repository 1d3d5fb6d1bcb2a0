import BlockTrace.Proofs.Run.Footprint
import BlockTrace.Proofs.Run.Growth
import Mathlib

/-! How far the lines of a trace tell whether the run was aborted. Every line before the one of the
fault was logged by a block of the program, and only two kinds of lines start with text that the
program chooses: those of an assignment and of an access that reads an element. -/
namespace BlockTrace.Run

/-- The line starts like the line of a run that was aborted. -/
def LikeError (line : String) : Prop :=
  "Error: ".toList <+: line.toList

instance (line : String) : Decidable (LikeError line) :=
  inferInstanceAs (Decidable (_ <+: _))

/-- The line of the event starts with a name that makes it look like the line of a fault. -/
def Event.Mimics : Event → Prop
  | assigned name _ => name = "Error:" ∨ LikeError name
  | elementRead name _ _ => LikeError name
  | _ => False

/-- What the lines tell of a run is right: it was aborted exactly if the last line looks like the
line of a fault, and no line before looks like one. -/
structure State.TellsHalt (s : State) : Prop where
  last : s.halted = true ↔ ∃ line, s.lines.getLast? = some line ∧ LikeError line
  before : ∀ line ∈ s.lines.dropLast, ¬ LikeError line

/-- The trace is made of the events, and of the line of a fault if the run was aborted. -/
inductive State.Shows (s : State) (events : List Event) : Prop
  | completed : s.halted = false → s.trace.toList = events → s.Shows events
  | aborted (fault : Fault) : s.halted = true → s.trace.toList = events ++ [.halted fault] →
    s.Shows events

end BlockTrace.Run

namespace BlockTrace.Program.Block
open Run (Event LikeError)

/-- The block itself logs such an event when it is executed. -/
inductive Logs : Block → Event → Prop
  | declared {p : Parameters} {name : String} :
    (declareVars p).NamesVar name → Logs (declareVars p) (.declared name)
  | assigned {p : Parameters} {name : String} (value : Int32) :
    p.get? .varName = some name → Logs (assign p) (.assigned name value)
  | evaluated {p : Parameters} {text : String} (value : Int32) :
    p.get? .expression = some text → Logs (arithmetic p) (.evaluated text value)
  | tested {p : Parameters} {condition : String} (body : List Block) (outcome : Bool) :
    p.get? .condition = some condition → Logs (ifThen p body) (.tested condition outcome)
  | branched {p : Parameters} {condition : String} (thenBranch elseBranch : List Block)
    (outcome : Bool) : p.get? .condition = some condition →
      Logs (ifElse p thenBranch elseBranch) (.branched condition outcome)
  | looped {p : Parameters} {condition : String} (body : List Block) (outcome : Bool) :
    p.get? .condition = some condition → Logs (whileLoop p body) (.looped condition outcome)
  | arrayDeclared {p : Parameters} {name : String} (size : Int32) :
    p.get? .name = some name → Logs (declareArray p) (.arrayDeclared name size)
  | elementRead {p : Parameters} {name : String} {index : Int32} (value : Int32) :
    p.Accesses name index "get" → Logs (arrayAccess p) (.elementRead name index value)
  | elementWritten {p : Parameters} {name : String} {index : Int32} (value : Int32) :
    p.Accesses name index "set" → Logs (arrayAccess p) (.elementWritten name index value)

/-- The block assigns to a variable, or reads from an array, whose name makes the line look like
the line of a fault. -/
def Mimics : Block → Prop
  | assign p => ∃ name, p.get? .varName = some name ∧ (name = "Error:" ∨ LikeError name)
  | arrayAccess p => ∃ name index, p.Accesses name index "get" ∧ LikeError name
  | _ => False

private theorem mimics_of_logs {block : Block} {event : Event} (h : block.Logs event)
    (hm : event.Mimics) : block.Mimics := by
  cases h with
  | assigned value hp => exact ⟨_, hp, hm⟩
  | elementRead value hp => exact ⟨_, _, hp, hm⟩
  | _ => exact hm.elim

end BlockTrace.Program.Block

namespace BlockTrace.Run
open Program (Block Parameters)
open Machine (stopped step)

section Lines
variable {mark name rest : List Char} {c : Char}

/-- A mark that ends before `c` does not reach into what comes after it. -/
theorem prefix_append_cons_iff (hc : c ∉ mark) : mark <+: name ++ c :: rest ↔ mark <+: name := by
  constructor
  · intro h
    have hn : name ++ [c] <+: name ++ c :: rest := ⟨rest, by simp⟩
    rcases List.prefix_or_prefix_of_prefix h hn with hm | hm
    · rcases List.prefix_concat_iff.1 hm with rfl | hm
      · simp at hc
      · exact hm
    · exact absurd (hm.subset (by simp)) hc
  · exact fun h => h.trans (List.prefix_append _ _)

private theorem likeError_assigned_iff {name : String} {value : Int32} :
    LikeError (Event.assigned name value).line ↔ name = "Error:" ∨ LikeError name := by
  have hl : (Event.assigned name value).line.toList =
      (name.toList ++ [' ']) ++ '=' :: (' ' :: (toString value).toList) := by
    unfold Event.line
    simp
  have he : "Error: ".toList = name.toList ++ [' '] ↔ name = "Error:" := by
    rw [show "Error: ".toList = "Error:".toList ++ [' '] by decide, List.append_left_inj,
      String.toList_inj, eq_comm]
  rw [LikeError, hl, prefix_append_cons_iff (by decide), List.prefix_concat_iff, he, LikeError]

private theorem likeError_elementRead_iff {name : String} {index value : Int32} :
    LikeError (Event.elementRead name index value).line ↔ LikeError name := by
  have hl : (Event.elementRead name index value).line.toList =
      name.toList ++ '[' :: ((toString index).toList ++ "] = ".toList ++
        (toString value).toList) := by
    unfold Event.line
    simp
  rw [LikeError, hl, prefix_append_cons_iff (by decide), LikeError]

/-- Of the lines that a block logs, those look like the line of a fault that start with such a
name. The others start with a word of their own. -/
theorem likeError_iff_of_logs {block : Block} {event : Event} (h : block.Logs event) :
    LikeError event.line ↔ event.Mimics := by
  cases h with
  | assigned value hp => exact likeError_assigned_iff
  | elementRead value hp => exact likeError_elementRead_iff
  | _ =>
    unfold Event.line
    simp [LikeError, Event.Mimics]

theorem likeError_halted (fault : Fault) : LikeError (Event.halted fault).line := by
  unfold Event.line
  rw [LikeError, String.toList_append]
  exact List.prefix_append _ _

end Lines

/-- What the later trace has more was logged by the blocks. -/
def LoggedBy (blocks : List Block) (a b : Array Event) : Prop :=
  ∀ event ∈ b, event ∈ a ∨ ∃ block ∈ blocks, block.Logs event

section LoggedBy
variable {blocks more : List Block} {block : Block} {a b c : Array Event} {event : Event}

theorem LoggedBy.refl (a : Array Event) : LoggedBy blocks a a :=
  fun _ h => .inl h

theorem LoggedBy.trans (h : LoggedBy blocks a b) (h' : LoggedBy blocks b c) :
    LoggedBy blocks a c := by
  intro event hc
  rcases h' event hc with hb | hl
  · exact h event hb
  · exact .inr hl

theorem LoggedBy.mono (h : LoggedBy blocks a b) (hs : blocks ⊆ more) : LoggedBy more a b := by
  intro event hb
  rcases h event hb with ha | ⟨block, hm, hl⟩
  · exact .inl ha
  · exact .inr ⟨block, hs hm, hl⟩

theorem LoggedBy.push (a : Array Event) (h : block.Logs event) :
    LoggedBy [block] a (a.push event) := by
  intro other ho
  rcases Array.mem_push.1 ho with ha | rfl
  · exact .inl ha
  · exact .inr ⟨block, List.mem_singleton_self block, h⟩

end LoggedBy

section Actions
variable {store : Store} {p : Parameters} {effect : Effect}

private theorem declareName_logs {block : Block} {name : String} (hb : block.Logs (.declared name))
    (h : declareName name store = .ok effect) : block.Logs effect.event := by
  obtain ⟨-, after, -, rfl⟩ := declareName_cases h
  exact hb

private theorem assign_logs (h : assign p store = .ok effect) :
    (Block.assign p).Logs effect.event := by
  obtain ⟨name, text, value, after, hn, -, -, -, rfl⟩ := assign_cases h
  exact .assigned value hn

private theorem arithmetic_logs (h : arithmetic p store = .ok effect) :
    (Block.arithmetic p).Logs effect.event := by
  obtain ⟨text, value, ht, -, rfl⟩ := arithmetic_cases h
  exact .evaluated value ht

private theorem declareArray_logs {limit : Nat} (h : declareArray limit p store = .ok effect) :
    (Block.declareArray p).Logs effect.event := by
  obtain ⟨name, size, after, hn, -, -, rfl⟩ := declareArray_cases h
  exact .arrayDeclared size hn

private theorem arrayAccess_logs (h : arrayAccess p store = .ok effect) :
    (Block.arrayAccess p).Logs effect.event := by
  obtain ⟨name, index, ⟨hp, value, -, rfl⟩ | ⟨hp, value, after, -, -, rfl⟩⟩ := arrayAccess_cases h
  · exact .elementRead value hp
  · exact .elementWritten value hp

/-- Also where a name fails, only names of the list were logged. -/
theorem declareEach_loggedBy {block : Block} (names : List String) (s : State)
    (hb : ∀ name ∈ names, block.Logs (.declared name)) :
    LoggedBy [block] s.trace (declareEach names s).1.trace := by
  induction names generalizing s with
  | nil => exact .refl _
  | cons name rest ih =>
    rw [List.forall_mem_cons] at hb
    rw [declareEach]
    cases hd : declareName name s.store with
    | error fault => exact .refl _
    | ok effect =>
      exact (LoggedBy.push s.trace (declareName_logs hb.1 hd)).trans (ih (s.apply effect) hb.2)

private theorem declareVars_loggedBy (p : Parameters) (s : State) :
    LoggedBy [.declareVars p] s.trace (declareVars p s).1.trace := by
  unfold declareVars
  cases hr : require p .names with
  | error fault => exact .refl _
  | ok names =>
    exact declareEach_loggedBy _ s fun name hn =>
      .declared (namesVar_of_mem_listedNames (require_eq_ok_iff.1 hr) hn)

theorem condition_of_decideCondition {condition : String} {holds : Bool}
    (h : decideCondition p store = .ok (condition, holds)) :
    p.get? .condition = some condition := by
  obtain ⟨text, ht, h⟩ := bind_eq_ok_iff.1 h
  obtain ⟨outcome, -, hr⟩ := bind_eq_ok_iff.1 h
  cases hr
  exact require_eq_ok_iff.1 ht

end Actions

section Steps
variable {limits : Limits} {block : Block} {c : Config} {m : Machine}

private theorem ofEffect_loggedBy {x : Except Fault Effect}
    (h : ∀ effect, x = .ok effect → block.Logs effect.event) :
    LoggedBy [block] c.state.trace (Advance.ofEffect c x).config.state.trace := by
  cases x with
  | error fault => exact .refl _
  | ok effect => exact .push _ (h effect rfl)

/-- A step logs what its block logs, whether it fails or not. -/
theorem advance_loggedBy (limits : Limits) (block : Block) (c : Config) :
    LoggedBy [block] c.state.trace (advance limits block c).config.state.trace := by
  cases block with
  | declareVars p =>
    rw [advance_declareVars, config_ofPartly]
    exact declareVars_loggedBy p c.state
  | assign p =>
    rw [advance_assign]
    exact ofEffect_loggedBy fun _ => assign_logs
  | arithmetic p =>
    rw [advance_arithmetic]
    exact ofEffect_loggedBy fun _ => arithmetic_logs
  | declareArray p =>
    rw [advance_declareArray]
    exact ofEffect_loggedBy fun _ => declareArray_logs
  | arrayAccess p =>
    rw [advance_arrayAccess]
    exact ofEffect_loggedBy fun _ => arrayAccess_logs
  | ifThen p body =>
    simp only [advance]
    rcases hd : decideCondition p c.state.store with fault | ⟨condition, _ | _⟩
    · exact .refl _
    all_goals exact .push _ (.tested _ _ (condition_of_decideCondition hd))
  | ifElse p thenBranch elseBranch =>
    simp only [advance]
    rcases hd : decideCondition p c.state.store with fault | ⟨condition, _ | _⟩
    · exact .refl _
    all_goals exact .push _ (.branched _ _ _ (condition_of_decideCondition hd))
  | whileLoop p body =>
    simp only [advance]
    rcases hd : decideCondition p c.state.store with fault | ⟨condition, _ | _⟩
    · exact .refl _
    · exact .push _ (.looped _ _ (condition_of_decideCondition hd))
    · rcases beginIteration_cases limits c with ⟨-, hb⟩ | ⟨-, limit, -, -, hb⟩ | ⟨-, -, hb⟩
      · rw [hb]
        exact .refl _
      · rw [hb]
        exact .refl _
      · rw [hb]
        exact .push _ (.looped _ _ (condition_of_decideCondition hd))

private theorem Machine.step_loggedBy (limits : Limits) (m : Machine) :
    LoggedBy m.taken m.config.state.trace (step limits m).config.state.trace := by
  rcases m with ⟨_ | ⟨block, rest⟩, c⟩ | ⟨result, c⟩
  · exact .refl _
  · rw [config_step]
    exact advance_loggedBy limits block c
  · exact .refl _

/-- All that a machine logs is logged by blocks that stood in those that were pending. -/
theorem Machine.iterate_loggedBy (limits : Limits) (m : Machine) (n : Nat) :
    LoggedBy (Block.partsAll m.pending) m.config.state.trace
      ((step limits)^[n] m).config.state.trace := by
  induction n with
  | zero => exact .refl _
  | succ n ih =>
    rw [Function.iterate_succ_apply']
    exact ih.trans ((step_loggedBy limits _).mono (taken_iterate_subset limits m n))

end Steps

namespace Session
variable {s t : Session} {program : List Block}

/-- The trace of a run is what its blocks logged, and the line of the fault if it was aborted. -/
theorem exists_logged_of_ends (h : s.Ends program t) :
    ∃ events, t.state.Shows events ∧
      ∀ event ∈ events, ∃ block ∈ Block.partsAll program, block.Logs event := by
  obtain ⟨result, c, ⟨n, hn⟩, rfl⟩ := ends_iff.1 h
  refine ⟨c.state.trace.toList, ?_, ?_⟩
  · cases result with
    | none =>
      have hc : Machine.Reaches s.limits (s.machine program) (stopped none c) := ⟨n, hn⟩
      exact .completed (grows_of_changes hc.changes).halted rfl
    | some fault => exact .aborted fault rfl Array.toList_push
  · intro event he
    have hl := Machine.iterate_loggedBy s.limits (s.machine program) n
    rw [hn] at hl
    exact (hl event (Array.mem_def.2 he)).resolve_left (Array.not_mem_empty event)

end Session

namespace State
variable {s : State}

private theorem tellsHalt_iff_of_completed (h : s.halted = false) :
    s.TellsHalt ↔ ∀ line ∈ s.lines, ¬ LikeError line := by
  constructor
  · intro ht line hl he
    rcases List.eq_nil_or_concat' s.lines with hn | ⟨front, last, hc⟩
    · rw [hn] at hl
      cases hl
    · rw [hc] at hl
      rcases List.mem_append.1 hl with hf | hf
      · exact ht.before line (by simpa [hc] using hf) he
      · obtain rfl := List.mem_singleton.1 hf
        have hh := ht.last.2 ⟨line, by simp [hc], he⟩
        cases h.symm.trans hh
  · intro hn
    refine ⟨⟨fun hh => ?_, ?_⟩, fun line hl => hn line (List.dropLast_subset _ hl)⟩
    · cases h.symm.trans hh
    · rintro ⟨line, hl, he⟩
      exact absurd he (hn line (List.mem_of_getLast? hl))

private theorem tellsHalt_iff_of_halted {front : List String} {last : String} (h : s.halted = true)
    (hl : s.lines = front ++ [last]) (he : LikeError last) :
    s.TellsHalt ↔ ∀ line ∈ front, ¬ LikeError line := by
  constructor
  · intro ht line hf
    exact ht.before line (by simpa [hl] using hf)
  · intro hn
    exact ⟨⟨fun _ => ⟨last, by simp [hl], he⟩, fun _ => h⟩, by simpa [hl] using hn⟩

variable {events : List Event}

private theorem Shows.exists_last (h : s.Shows events) (hh : s.halted = true) :
    ∃ line, s.lines.getLast? = some line ∧ LikeError line := by
  cases h with
  | completed hc _ => cases hc.symm.trans hh
  | aborted fault _ ht => exact ⟨_, by simp [lines, ht], likeError_halted fault⟩

theorem Shows.mem_of_mimics {event : Event} (h : s.Shows events) (he : event ∈ s.trace)
    (hm : event.Mimics) : event ∈ events := by
  rw [Array.mem_def] at he
  cases h with
  | completed _ ht => exact ht ▸ he
  | aborted fault _ ht =>
    rw [ht] at he
    rcases List.mem_append.1 he with he | he
    · exact he
    · obtain rfl := List.mem_singleton.1 he
      exact hm.elim

private theorem Shows.likeError_iff (h : s.Shows events)
    (hl : ∀ event ∈ events, (LikeError event.line ↔ event.Mimics)) {k : Nat} {event : Event}
    (he : s.trace[k]? = some event) :
    LikeError event.line ↔ event.Mimics ∨ s.halted = true ∧ k + 1 = s.trace.size := by
  rw [← Array.getElem?_toList] at he
  rw [← Array.length_toList]
  cases h with
  | completed hh ht =>
    rw [ht] at he
    simp [hl event (List.mem_of_getElem? he), hh]
  | aborted fault hh ht =>
    rw [ht] at he ⊢
    rcases Nat.lt_trichotomy k events.length with hk | rfl | hk
    · rw [List.getElem?_append_left hk] at he
      simp [hl event (List.mem_of_getElem? he), hk.ne]
    · rw [List.getElem?_concat_length] at he
      cases he
      simp [likeError_halted fault, hh]
    · rw [List.getElem?_eq_none (by simpa using hk)] at he
      cases he

theorem Shows.tellsHalt_iff (h : s.Shows events)
    (hl : ∀ event ∈ events, (LikeError event.line ↔ event.Mimics)) :
    s.TellsHalt ↔ ∀ event ∈ s.trace, ¬ event.Mimics := by
  have hlines : (∀ line ∈ events.map Event.line, ¬ LikeError line) ↔
      ∀ event ∈ events, ¬ event.Mimics := by
    rw [List.forall_mem_map]
    exact forall₂_congr fun event he => not_congr (hl event he)
  have htrace : (∀ event ∈ events, ¬ event.Mimics) ↔ ∀ event ∈ s.trace, ¬ event.Mimics := by
    constructor
    · exact fun hn event he hm => hn event (h.mem_of_mimics he hm) hm
    · intro hn event he
      refine hn event (Array.mem_def.2 ?_)
      cases h with
      | completed _ ht => exact ht ▸ he
      | aborted _ _ ht => exact ht ▸ List.mem_append_left _ he
  rw [← htrace, ← hlines]
  cases h with
  | completed hh ht => rw [tellsHalt_iff_of_completed hh, lines, ht]
  | aborted fault hh ht =>
    exact tellsHalt_iff_of_halted hh (by simp [lines, ht]) (likeError_halted fault)

end State

/-- How far the lines of a run tell whether it was aborted. The last line of an aborted run starts
like the line of a fault. Any other line that does so is that of an assignment or of a reading
access, and the name in it does so, or is that of an assignment to `Error:`. Exactly where there is
no such line, and so for every program without a block that could log one, the lines tell whether
the run was aborted. -/
theorem abort_told_by_lines {s t : Session} {program : List Block} (h : s.Ends program t) :
    (t.state.halted = true → ∃ line, t.state.lines.getLast? = some line ∧ LikeError line) ∧
    (∀ (k : Nat) (event : Event), t.state.trace[k]? = some event →
      (LikeError event.line ↔
        event.Mimics ∨ t.state.halted = true ∧ k + 1 = t.state.trace.size)) ∧
    (t.state.TellsHalt ↔ ∀ event ∈ t.state.trace, ¬ event.Mimics) ∧
    ((∀ block ∈ Block.partsAll program, ¬ block.Mimics) → t.state.TellsHalt) := by
  obtain ⟨events, hs, hlog⟩ := Session.exists_logged_of_ends h
  have hl : ∀ event ∈ events, (LikeError event.line ↔ event.Mimics) := by
    intro event he
    obtain ⟨block, -, hb⟩ := hlog event he
    exact likeError_iff_of_logs hb
  refine ⟨hs.exists_last, fun k event he => hs.likeError_iff hl he, hs.tellsHalt_iff hl, ?_⟩
  intro hn
  refine (hs.tellsHalt_iff hl).2 fun event he hm => ?_
  obtain ⟨block, hp, hb⟩ := hlog event (hs.mem_of_mimics he hm)
  exact hn block hp (Program.Block.mimics_of_logs hb hm)

/-- A variable may have a name that starts like the line of a fault. The line that says what is
assigned to it is the last of a run that completes. -/
theorem assignment_looks_like_abort :
    ∃ t, Session.Ends {} [.declareNames "Error: x", .assignTo "Error: x" "1"] t ∧
      t.state.halted = false ∧
      t.state.lines = ["Declared variable: Error: x = 0", "Error: x = 1"] ∧
      ¬ t.state.TellsHalt := by
  have hr : (Session.runFor 0 {} [.declareNames "Error: x", .assignTo "Error: x" "1"]).map
      (fun t => (t.state.halted, t.state.trace)) =
      some (false, #[.declared "Error: x", .assigned "Error: x" 1]) := by
    cbv
  obtain ⟨t, ht, he⟩ := Option.map_eq_some_iff.1 hr
  obtain ⟨hh, htrace⟩ := Prod.mk.injEq .. ▸ he
  have hl : t.state.lines = ["Declared variable: Error: x = 0", "Error: x = 1"] := by
    rw [State.lines, htrace]
    decide
  refine ⟨t, ⟨0, ht⟩, hh, hl, fun h => ?_⟩
  have ha := h.last.2 ⟨"Error: x = 1", by rw [hl]; rfl, by decide⟩
  cases hh.symm.trans ha

/-- A name that only comes close is no such name: the line `Error = 1` starts otherwise, and the
division by zero is told by the last line alone. -/
theorem division_told_by_last_line :
    ∃ t, Session.Ends {} [.declareNames "Error", .assignTo "Error" "1", .evaluate "1 / 0"] t ∧
      t.state.halted = true ∧ t.state.lines = ["Declared variable: Error = 0", "Error = 1",
        "Error: Division by zero"] ∧
      t.state.TellsHalt := by
  have hr : (Session.runFor 0 {} [.declareNames "Error", .assignTo "Error" "1",
      .evaluate "1 / 0"]).map (fun t => (t.state.halted, t.state.trace)) =
      some (true, #[.declared "Error", .assigned "Error" 1,
        .halted (.expression ⟨.divisionByZero, ⟨4, 1⟩⟩)]) := by
    cbv
  have hn : (Block.assignTo "Error" "1").parameters.get? .varName = some "Error" := by
    cbv
  obtain ⟨t, ht, he⟩ := Option.map_eq_some_iff.1 hr
  obtain ⟨hh, htrace⟩ := Prod.mk.injEq .. ▸ he
  obtain ⟨-, -, -, htells⟩ := abort_told_by_lines ⟨0, ht⟩
  refine ⟨t, ⟨0, ht⟩, hh, ?_, htells ?_⟩
  · rw [State.lines, htrace]
    decide
  · simp only [Block.declareNames, Block.assignTo, Block.evaluate, Block.partsAll, Block.parts,
      List.cons_append, List.nil_append, List.forall_mem_cons, Block.Mimics]
    refine ⟨id, ?_, id, by simp⟩
    rintro ⟨name, hp, hm⟩
    obtain rfl := Option.some.inj (hp.symm.trans hn)
    revert hm
    decide

end BlockTrace.Run
