import BlockTrace.Proofs.Run.Footprint
import BlockTrace.Proofs.Run.Refinement
import Mathlib

/-! What stands in the arrays decides nothing. Two runs of the same blocks that begin with the same
variables and with arrays of the same lengths take the same way, and their traces differ only in the
values that accesses to elements show. -/
namespace BlockTrace

section Matches
variable {ε ε' α α' β β' : Type} {R : α → α' → Prop} {S : β → β' → Prop}

/-- Both fail with the same fault, or both give values, and these are related. -/
inductive Matches (R : α → α' → Prop) : Except ε α → Except ε α' → Prop
  | error (e : ε) : Matches R (.error e) (.error e)
  | ok {a : α} {a' : α'} : R a a' → Matches R (.ok a) (.ok a')

theorem Matches.refl (x : Except ε α) : Matches Eq x x := by
  cases x with
  | error e => exact .error e
  | ok a => exact .ok rfl

theorem Matches.bind {x : Except ε α} {x' : Except ε α'} {f : α → Except ε β}
    {f' : α' → Except ε β'} (h : Matches R x x') (hf : ∀ a a', R a a' → Matches S (f a) (f' a')) :
    Matches S (x >>= f) (x' >>= f') := by
  cases h with
  | error e => exact .error e
  | ok ha => exact hf _ _ ha

/-- Where the first part is the same, only the second has to be compared. -/
theorem Matches.after (x : Except ε α) {f : α → Except ε β} {f' : α → Except ε β'}
    (hf : ∀ a, Matches S (f a) (f' a)) : Matches S (x >>= f) (x >>= f') := by
  refine (Matches.refl x).bind ?_
  rintro a _ rfl
  exact hf a

theorem Matches.map {x : Except ε α} {x' : Except ε α'} {f : α → β} {f' : α' → β'}
    (h : Matches R x x') (hf : ∀ a a', R a a' → S (f a) (f' a')) :
    Matches S (x.map f) (x'.map f') := by
  cases h with
  | error e => exact .error e
  | ok ha => exact .ok (hf _ _ ha)

theorem Matches.mapError {x : Except ε α} {x' : Except ε α'} (h : Matches R x x')
    (lift : ε → ε') : Matches R (x.mapError lift) (x'.mapError lift) := by
  cases h with
  | error e => exact .error (lift e)
  | ok ha => exact .ok ha

end Matches

namespace Store

/-- The same variables with the same values, and arrays of the same names and lengths. -/
structure SameShape (a b : Store) : Prop where
  vars : a.vars = b.vars
  lengths : ∀ name : String, a.arrays[name]?.map Cells.length = b.arrays[name]?.map Cells.length

section SameShape
variable {a b : Store} {name : String}

theorem SameShape.symm (h : a.SameShape b) : b.SameShape a :=
  ⟨h.vars.symm, fun name => (h.lengths name).symm⟩

theorem SameShape.setVar (h : a.SameShape b) (name : String) (value : Int32) :
    SameShape { a with vars := a.vars.insert name value }
      { b with vars := b.vars.insert name value } :=
  ⟨congrArg (fun vars => vars.insert name value) h.vars, h.lengths⟩

theorem SameShape.setArray {cells cells' : Cells} (h : a.SameShape b) (name : String)
    (hl : cells.length = cells'.length) :
    SameShape { a with arrays := a.arrays.insert name cells }
      { b with arrays := b.arrays.insert name cells' } := by
  refine ⟨h.vars, fun other => ?_⟩
  rw [Std.ExtTreeMap.getElem?_insert, Std.ExtTreeMap.getElem?_insert]
  split
  · exact congrArg some hl
  · exact h.lengths other

private theorem SameShape.mem_arrays_iff (h : a.SameShape b) :
    name ∈ a.arrays ↔ name ∈ b.arrays := by
  have hs := congrArg Option.isSome (h.lengths name)
  rw [Option.isSome_map, Option.isSome_map] at hs
  rw [Std.ExtTreeMap.mem_iff_isSome_getElem?, Std.ExtTreeMap.mem_iff_isSome_getElem?, hs]

theorem SameShape.declare (h : a.SameShape b) (name : String) :
    Matches SameShape (a.declare name) (b.declare name) := by
  rw [Store.declare_eq, Store.declare_eq]
  rw [← h.vars]
  split
  · exact .error _
  · exact .ok (h.vars ▸ h.setVar name 0)

theorem SameShape.assign (h : a.SameShape b) (name : String) (value : Int32) :
    Matches SameShape (a.assign name value) (b.assign name value) := by
  rw [Store.assign_eq, Store.assign_eq]
  rw [← h.vars]
  split
  · exact .ok (h.vars ▸ h.setVar name value)
  · exact .error _

theorem SameShape.declareArray (h : a.SameShape b) (name : String) (size : Int32) (limit : Nat) :
    Matches SameShape (a.declareArray name size limit) (b.declareArray name size limit) := by
  rw [Store.declareArray_eq, Store.declareArray_eq]
  simp only [h.mem_arrays_iff]
  split
  · exact .error _
  · split
    · exact .error _
    · split
      · exact .error _
      · exact .ok (h.setArray name rfl)

/-- An element is found in both stores or in none, at the same place in arrays of one length. -/
theorem SameShape.element (h : a.SameShape b) (name : String) (index : Int32) :
    Matches (fun found found' => found.1.length = found'.1.length ∧ found.2.1 = found'.2.1)
      (a.element name index) (b.element name index) := by
  have hl := h.lengths name
  unfold Store.element
  cases ha : a.arrays[name]? with
  | none =>
    rw [ha, Option.map_none, eq_comm, Option.map_eq_none_iff] at hl
    rw [hl]
    exact .error _
  | some cells =>
    rw [ha, Option.map_some, eq_comm, Option.map_eq_some_iff] at hl
    obtain ⟨cells', hb, hl⟩ := hl
    rw [hb]
    dsimp only
    rw [hl]
    cases position? index with
    | none => exact .error _
    | some i =>
      unfold Cells.get?
      rw [hl]
      by_cases hi : i < cells.length
      · simp only [hi, if_true]
        exact .ok ⟨hl.symm, rfl⟩
      · simp only [hi, if_false]
        exact .error _

theorem SameShape.read (h : a.SameShape b) (name : String) (index : Int32) :
    Matches (fun _ _ => True) (a.read name index) (b.read name index) :=
  (h.element name index).map fun _ _ _ => trivial

theorem SameShape.write (h : a.SameShape b) (name : String) (index value : Int32) :
    Matches SameShape (a.write name index value) (b.write name index value) := by
  rw [Store.write_eq, Store.write_eq]
  refine (h.element name index).map ?_
  rintro ⟨cells, i, v⟩ ⟨cells', i', v'⟩ ⟨hl, hi⟩
  dsimp only at hl hi
  subst hi
  refine h.setArray name ?_
  rw [Cells.length_set, Cells.length_set, hl]

end SameShape

end Store

namespace Run
open Program (Block Parameters)
open Machine (running stopped step)
open Store (SameShape)

/-- The same event, or a read of the same element that may show another value. -/
inductive Event.Alike : Event → Event → Prop
  | same (event : Event) : Alike event event
  | read (name : String) (index value value' : Int32) :
    Alike (.elementRead name index value) (.elementRead name index value')

structure Effect.Alike (effect effect' : Effect) : Prop where
  store : effect.store.SameShape effect'.store
  event : effect.event.Alike effect'.event

section Actions
variable {store store' : Store}

theorem evaluate_alike (h : store.SameShape store') (text : String) :
    evaluate store text = evaluate store' text := by
  rw [evaluate, evaluate, h.vars]

theorem decideCondition_alike (h : store.SameShape store') (p : Parameters) :
    decideCondition p store = decideCondition p store' := by
  simp only [decideCondition, test, h.vars]

private theorem declareName_alike (h : store.SameShape store') (name : String) :
    Matches Effect.Alike (declareName name store) (declareName name store') := by
  unfold declareName
  split
  · exact .error _
  · refine ((h.declare name).mapError _).bind fun after after' ha => ?_
    exact .ok ⟨ha, .same _⟩

private theorem assign_alike (h : store.SameShape store') (p : Parameters) :
    Matches Effect.Alike (assign p store) (assign p store') := by
  refine .after _ fun name => .after _ fun text => ?_
  rw [← h.vars]
  split
  · rw [evaluate_alike h]
    refine .after _ fun value => ?_
    refine ((h.assign name value).mapError _).bind fun after after' ha => ?_
    exact .ok ⟨ha, .same _⟩
  · exact .error _

private theorem arithmetic_alike (h : store.SameShape store') (p : Parameters) :
    Matches Effect.Alike (arithmetic p store) (arithmetic p store') := by
  refine .after _ fun text => ?_
  rw [evaluate_alike h]
  exact .after _ fun value => .ok ⟨h, .same _⟩

private theorem declareArray_alike (h : store.SameShape store') (limit : Nat) (p : Parameters) :
    Matches Effect.Alike (declareArray limit p store) (declareArray limit p store') := by
  refine .after _ fun name => .after _ fun size => ?_
  refine ((h.declareArray name size limit).mapError _).bind fun after after' ha => ?_
  exact .ok ⟨ha, .same _⟩

/-- Only here does what stands in an array show, and only in the event. -/
theorem arrayAccess_alike (h : store.SameShape store') (p : Parameters) :
    Matches Effect.Alike (arrayAccess p store) (arrayAccess p store') := by
  refine .after _ fun name => .after _ fun index => .after _ fun operation => ?_
  refine ((h.read name index).mapError _).bind fun current current' _ => ?_
  split
  · exact .ok ⟨h, .read name index current current'⟩
  · split
    · refine .after _ fun value => ?_
      refine ((h.write name index value).mapError _).bind fun after after' ha => ?_
      exact .ok ⟨ha, .same _⟩
    · exact .error _

end Actions

/-- Both states have gone on alike since their traces were `before` and `before'`. -/
structure State.Alike (before before' : List Event) (s s' : State) : Prop where
  store : s.store.SameShape s'.store
  iterations : s.iterations = s'.iterations
  trace : ∃ events events' : List Event, s.trace.toList = before ++ events ∧
    s'.trace.toList = before' ++ events' ∧ List.Forall₂ Event.Alike events events'

structure Config.Alike (before before' : List Event) (c c' : Config) : Prop where
  state : c.state.Alike before before' c'.state
  interrupt : c.interrupt = c'.interrupt

section States
variable {before before' : List Event} {s s' : State} {c c' : Config}

theorem State.Alike.apply {effect effect' : Effect} (h : s.Alike before before' s')
    (he : effect.Alike effect') :
    (s.apply effect).Alike before before' (s'.apply effect') where
  store := he.store
  iterations := h.iterations
  trace := by
    obtain ⟨events, events', ht, ht', hf⟩ := h.trace
    refine ⟨events ++ [effect.event], events' ++ [effect'.event], ?_, ?_,
      List.rel_append hf (.cons he.event .nil)⟩
    · simp [State.apply, ht]
    · simp [State.apply, ht']

theorem State.Alike.emit (h : s.Alike before before' s') (event : Event) :
    (s.emit event).Alike before before' (s'.emit event) := by
  have he : Effect.Alike ⟨s.store, event⟩ ⟨s'.store, event⟩ := ⟨h.store, .same event⟩
  exact h.apply he

theorem Config.Alike.emit (h : c.Alike before before' c') (event : Event) :
    (c.emit event).Alike before before' (c'.emit event) :=
  ⟨h.state.emit event, h.interrupt⟩

/-- The names are declared up to the same one. -/
theorem declareEach_alike (names : List String) (h : s.Alike before before' s') :
    (declareEach names s).2 = (declareEach names s').2 ∧
      (declareEach names s).1.Alike before before' (declareEach names s').1 := by
  induction names generalizing s s' with
  | nil => exact ⟨rfl, h⟩
  | cons name rest ih =>
    rw [declareEach, declareEach]
    have hn := declareName_alike h.store name
    generalize declareName name s.store = x at hn ⊢
    generalize declareName name s'.store = x' at hn ⊢
    cases hn with
    | error fault => exact ⟨rfl, h⟩
    | ok he => exact ih (h.apply he)

private theorem declareVars_alike (p : Parameters) (h : s.Alike before before' s') :
    (declareVars p s).2 = (declareVars p s').2 ∧
      (declareVars p s).1.Alike before before' (declareVars p s').1 := by
  unfold declareVars
  cases require p .names with
  | error fault => exact ⟨rfl, h⟩
  | ok names => exact declareEach_alike _ h

end States

inductive Advance.Alike (before before' : List Event) : Advance → Advance → Prop
  | fail (fault : Fault) {c c' : Config} : c.Alike before before' c' →
    Alike before before' (.fail fault c) (.fail fault c')
  | go (front : List Block) {c c' : Config} : c.Alike before before' c' →
    Alike before before' (.go front c) (.go front c')

inductive Machine.Alike (before before' : List Event) : Machine → Machine → Prop
  | running (pending : List Block) {c c' : Config} : c.Alike before before' c' →
    Alike before before' (.running pending c) (.running pending c')
  | stopped (result : Option Fault) {c c' : Config} : c.Alike before before' c' →
    Alike before before' (.stopped result c) (.stopped result c')

section Steps
variable {limits : Limits} {before before' : List Event} {c c' : Config} {m m' : Machine}

private theorem ofEffect_alike {x x' : Except Fault Effect} (h : c.Alike before before' c')
    (hx : Matches Effect.Alike x x') :
    (Advance.ofEffect c x).Alike before before' (Advance.ofEffect c' x') := by
  cases hx with
  | error fault => exact .fail fault h
  | ok he => exact .go [] ⟨h.state.apply he, h.interrupt⟩

private theorem ofPartly_alike {interrupt interrupt' : Bool} {x x' : State × Option Fault}
    (hf : interrupt = interrupt') (hr : x.2 = x'.2) (hs : x.1.Alike before before' x'.1) :
    (Advance.ofPartly interrupt x).Alike before before' (Advance.ofPartly interrupt' x') := by
  obtain ⟨s, result⟩ := x
  obtain ⟨s', result'⟩ := x'
  dsimp only at hr
  subst hr
  cases result with
  | none => exact .go [] ⟨hs, hf⟩
  | some fault => exact .fail fault ⟨hs, hf⟩

/-- The check before a round sees neither the store nor the trace. -/
theorem beginIteration_alike (limits : Limits) (h : c.Alike before before' c') :
    (beginIteration limits c).2 = (beginIteration limits c').2 ∧
      (beginIteration limits c).1.Alike before before' (beginIteration limits c').1 := by
  have hc : ∀ n, Config.Alike before before' ⟨{ c.state with iterations := n }, c.interrupt⟩
      ⟨{ c'.state with iterations := n }, c.interrupt⟩ :=
    fun n => ⟨⟨h.state.store, rfl, h.state.trace⟩, rfl⟩
  unfold beginIteration
  simp only [← h.interrupt, ← h.state.iterations]
  split
  · exact ⟨rfl, h.state, rfl⟩
  · cases limits.maxIterations with
    | none => exact ⟨rfl, hc _⟩
    | some limit =>
      dsimp only
      split
      · exact ⟨rfl, hc _⟩
      · exact ⟨rfl, hc _⟩

private theorem advance_alike (limits : Limits) (block : Block) (h : c.Alike before before' c') :
    (advance limits block c).Alike before before' (advance limits block c') := by
  have hs := h.state.store
  cases block with
  | declareVars p =>
    obtain ⟨hr, ha⟩ := declareVars_alike p h.state
    rw [advance_declareVars, advance_declareVars]
    exact ofPartly_alike h.interrupt hr ha
  | assign p =>
    rw [advance_assign, advance_assign]
    exact ofEffect_alike h (assign_alike hs p)
  | arithmetic p =>
    rw [advance_arithmetic, advance_arithmetic]
    exact ofEffect_alike h (arithmetic_alike hs p)
  | declareArray p =>
    rw [advance_declareArray, advance_declareArray]
    exact ofEffect_alike h (declareArray_alike hs _ p)
  | arrayAccess p =>
    rw [advance_arrayAccess, advance_arrayAccess]
    exact ofEffect_alike h (arrayAccess_alike hs p)
  | ifThen p body | ifElse p thenBranch elseBranch =>
    simp only [advance]
    rw [← decideCondition_alike hs p]
    rcases decideCondition p c.state.store with fault | ⟨condition, _ | _⟩
    · exact .fail fault h
    · exact .go _ (h.emit _)
    · exact .go _ (h.emit _)
  | whileLoop p body =>
    simp only [advance]
    rw [← decideCondition_alike hs p]
    rcases decideCondition p c.state.store with fault | ⟨condition, _ | _⟩
    · exact .fail fault h
    · exact .go _ (h.emit _)
    · obtain ⟨hr, ha⟩ := beginIteration_alike limits h
      generalize beginIteration limits c = x at hr ha ⊢
      generalize beginIteration limits c' = x' at hr ha ⊢
      obtain ⟨d, result⟩ := x
      obtain ⟨d', result'⟩ := x'
      dsimp only at hr
      subst hr
      cases result with
      | none => exact .go _ (ha.emit _)
      | some fault => exact .fail fault ha

theorem Machine.Alike.step (limits : Limits) (h : m.Alike before before' m') :
    (step limits m).Alike before before' (step limits m') := by
  cases h with
  | running pending h =>
    cases pending with
    | nil => exact .stopped none h
    | cons block rest =>
      have ha := advance_alike limits block h
      simp only [Machine.step]
      generalize advance limits block _ = x at ha ⊢
      generalize advance limits block _ = x' at ha ⊢
      cases ha with
      | fail fault h => exact .stopped (some fault) h
      | go front h => exact .running (front ++ rest) h
  | stopped result h => exact .stopped result h

/-- Step by step, the two machines do the same. -/
theorem Machine.Alike.iterate (limits : Limits) (n : Nat) (h : m.Alike before before' m') :
    ((Machine.step limits)^[n] m).Alike before before' ((Machine.step limits)^[n] m') := by
  induction n with
  | zero => exact h
  | succ n ih =>
    rw [Function.iterate_succ_apply', Function.iterate_succ_apply']
    exact ih.step limits

end Steps

section Ends
variable {limits : Limits} {blocks : List Block} {c c' d : Config} {result : Option Fault}

/-- The two machines stop after the same number of steps, with the same result. -/
theorem reaches_of_sameShape (hs : c.state.store.SameShape c'.state.store)
    (hi : c.state.iterations = c'.state.iterations) (hf : c.interrupt = c'.interrupt)
    (h : Machine.Reaches limits (running blocks c) (stopped result d)) :
    ∃ d', Machine.Reaches limits (running blocks c') (stopped result d') ∧
      d.Alike c.state.trace.toList c'.state.trace.toList d' := by
  obtain ⟨n, hn⟩ := h
  have hc : c.Alike c.state.trace.toList c'.state.trace.toList c' :=
    ⟨⟨hs, hi, [], [], by simp, by simp, .nil⟩, hf⟩
  have ha := (Machine.Alike.running blocks hc).iterate limits n
  rw [hn] at ha
  generalize hm : (step limits)^[n] (running blocks c') = m at ha
  cases ha with
  | stopped _ hd => exact ⟨_, ⟨n, hm⟩, hd⟩

theorem executeAll_of_sameShape {fuel : Nat} (hs : c.state.store.SameShape c'.state.store)
    (hi : c.state.iterations = c'.state.iterations) (hf : c.interrupt = c'.interrupt)
    (h : executeAll limits fuel blocks c ≠ .unfinished) :
    ∃ fuel, executeAll limits fuel blocks c' ≠ .unfinished := by
  obtain ⟨result, d, hx⟩ := Outcome.exists_ofResult h
  obtain ⟨d', ⟨n, hn⟩, -⟩ := reaches_of_sameShape hs hi hf (reaches_of_executeAll hx)
  obtain ⟨fuel, hx'⟩ := executeAll_of_stopped hn
  exact ⟨fuel, hx' ▸ Outcome.ofResult_ne_unfinished result d'⟩

end Ends

/-- What stands in the arrays at the start influences neither whether blocks end, nor how, nor the
variables, the names and lengths of arrays and the count of iterations that they leave. The lines
that they add are equally many and, one by one, the same, but for the values that are read from
arrays. -/
theorem array_contents_decide_nothing (limits : Limits) (blocks : List Block) (c c' : Config)
    (hs : c.state.store.SameShape c'.state.store)
    (hi : c.state.iterations = c'.state.iterations) (hf : c.interrupt = c'.interrupt) :
    ((∃ fuel, executeAll limits fuel blocks c ≠ .unfinished) ↔
      ∃ fuel, executeAll limits fuel blocks c' ≠ .unfinished) ∧
    ∀ fuel fuel' result result' d d', executeAll limits fuel blocks c = .ofResult result d →
      executeAll limits fuel' blocks c' = .ofResult result' d' →
      result = result' ∧ d.Alike c.state.trace.toList c'.state.trace.toList d' := by
  refine ⟨⟨fun ⟨fuel, h⟩ => executeAll_of_sameShape hs hi hf h,
    fun ⟨fuel, h⟩ => executeAll_of_sameShape hs.symm hi.symm hf.symm h⟩, ?_⟩
  intro fuel fuel' result result' d d' hx hx'
  obtain ⟨e, hr, he⟩ := reaches_of_sameShape hs hi hf (reaches_of_executeAll hx)
  obtain ⟨rfl, rfl⟩ := Machine.stopped_unique hr (reaches_of_executeAll hx')
  exact ⟨rfl, he⟩

/-- The first access shows different values, and after that the two go on in the same way until the
last one fails. -/
theorem array_contents_decide_no_access :
    ∃ d d', executeAll {} 1
        [.getAt "a" "1", .when "0 < 1" [.setAt "a" "0" "3"], .getAt "a" "7"]
        (.ofArray (.zeros 2) #[]) =
        .ofResult (some (.store (.indexOutOfBounds 7 2))) d ∧
      executeAll {} 1
        [.getAt "a" "1", .when "0 < 1" [.setAt "a" "0" "3"], .getAt "a" "7"]
        (.ofArray (Store.Cells.set (.zeros 2) 1 9) #[.note "before"]) =
        .ofResult (some (.store (.indexOutOfBounds 7 2))) d' ∧
      d.state.trace[0]? = some (.elementRead "a" 1 0) ∧
      d'.state.trace[1]? = some (.elementRead "a" 1 9) ∧
      d.Alike [] [.note "before"] d' := by
  have hs : (Config.ofArray (.zeros 2) #[]).state.store.SameShape
      (Config.ofArray (Store.Cells.set (.zeros 2) 1 9) #[.note "before"]).state.store := by
    have h : SameShape {} {} := ⟨rfl, fun _ => rfl⟩
    have hl : (Store.Cells.zeros 2).length = (Store.Cells.set (.zeros 2) 1 9).length := rfl
    exact h.setArray "a" hl
  have hd : executeAll {} 1
      [.getAt "a" "1", .when "0 < 1" [.setAt "a" "0" "3"], .getAt "a" "7"]
      (.ofArray (.zeros 2) #[]) =
      .ofResult (some (.store (.indexOutOfBounds 7 2)))
        (.ofArray (Store.Cells.set (.zeros 2) 0 3)
          #[.elementRead "a" 1 0, .tested "0 < 1" true, .elementWritten "a" 0 3]) := by
    cbv
  have hd' : executeAll {} 1
      [.getAt "a" "1", .when "0 < 1" [.setAt "a" "0" "3"], .getAt "a" "7"]
      (.ofArray (Store.Cells.set (.zeros 2) 1 9) #[.note "before"]) =
      .ofResult (some (.store (.indexOutOfBounds 7 2)))
        (.ofArray (Store.Cells.set (Store.Cells.set (.zeros 2) 1 9) 0 3)
          #[.note "before", .elementRead "a" 1 9, .tested "0 < 1" true,
            .elementWritten "a" 0 3]) := by
    cbv
  obtain ⟨-, ha⟩ := array_contents_decide_nothing {} _ _ _ hs rfl rfl
  exact ⟨_, _, hd, hd', rfl, rfl, (ha _ _ _ _ _ _ hd hd').2⟩

end Run

end BlockTrace
