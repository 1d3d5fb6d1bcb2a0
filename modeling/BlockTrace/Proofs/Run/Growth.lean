import BlockTrace.Proofs.Run.Changes
import BlockTrace.Proofs.Run.Refinement
import BlockTrace.Proofs.Store.Memory
import Mathlib

/-! A run only adds. Lines are appended to the trace, names stay declared and are not declared
again, arrays keep their length, and the length of a new one lies within the limit. -/
namespace BlockTrace.Store.Memory

/-- A length that an array may have when it is declared. -/
def Allowed (limit length : Nat) : Prop :=
  1 ≤ length ∧ length ≤ limit ∧ length ≤ 2 ^ 31 - 1

/-- No name is taken away, arrays keep their length, and new arrays have a length that is
allowed. -/
structure Grows (limit : Nat) (a b : Memory) : Prop where
  vars : ∀ name, a.vars name ≠ none → b.vars name ≠ none
  arrays : ∀ name elements, a.arrays name = some elements →
    ∃ after, b.arrays name = some after ∧ after.length = elements.length
  added : ∀ name elements, a.arrays name = none → b.arrays name = some elements →
    Allowed limit elements.length

variable {limit : Nat} {a b c m : Memory} {name : String}

theorem Grows.refl (m : Memory) : m.Grows limit m where
  vars := fun _ h => h
  arrays := fun _ elements h => ⟨elements, h, rfl⟩
  added := fun _ _ hn hs => by cases hn.symm.trans hs

theorem Grows.trans (h : a.Grows limit b) (h' : b.Grows limit c) : a.Grows limit c where
  vars := fun name hn => h'.vars name (h.vars name hn)
  arrays := by
    intro name elements ha
    obtain ⟨between, hb, hl⟩ := h.arrays name elements ha
    obtain ⟨after, hc, hl'⟩ := h'.arrays name between hb
    exact ⟨after, hc, hl'.trans hl⟩
  added := by
    intro name elements ha hc
    -- A new array was added in the first part or in the second.
    cases hb : b.arrays name with
    | none => exact h'.added name elements hb hc
    | some between =>
      obtain ⟨after, hc', hl⟩ := h'.arrays name between hb
      obtain rfl := Option.some.inj (hc.symm.trans hc')
      exact hl ▸ h.added name between ha hb

theorem grows_setVar (m : Memory) (name : String) (value : Int32) :
    m.Grows limit (m.setVar name value) where
  vars := by
    intro other ho
    rw [vars_setVar]
    split
    · exact Option.some_ne_none value
    · exact ho
  arrays := fun _ elements h => ⟨elements, h, rfl⟩
  added := fun _ _ hn hs => by cases hn.symm.trans hs

/-- An array may be set where there is none, if its length is allowed, and over one of the same
length. -/
theorem grows_setArray {elements : List Int32}
    (hn : m.arrays name = none → Allowed limit elements.length)
    (hs : ∀ before, m.arrays name = some before → elements.length = before.length) :
    m.Grows limit (m.setArray name elements) where
  vars := fun _ h => h
  arrays := by
    intro other before hb
    rw [arrays_setArray]
    split
    next he => exact ⟨elements, rfl, hs before (he ▸ hb)⟩
    · exact ⟨before, hb, rfl⟩
  added := by
    intro other after ha hb
    rw [arrays_setArray] at hb
    split at hb
    next he =>
      obtain rfl := Option.some.inj hb
      exact hn (he ▸ ha)
    · cases ha.symm.trans hb

end BlockTrace.Store.Memory

namespace BlockTrace.Run
open Program (Block)
open Machine (running stopped step Reaches)
open Relation (ReflTransGen)
open Store (Memory)

/-- A name of a variable or of an array. The two are kept apart. -/
inductive Declared
  | var (name : String)
  | array (name : String)
  deriving DecidableEq

def Declared.In (m : Memory) : Declared → Prop
  | var name => m.vars name ≠ none
  | array name => m.arrays name ≠ none

def Event.declares? : Event → Option Declared
  | declared name => some (.var name)
  | arrayDeclared name _ => some (.array name)
  | _ => none

/-- `b` is `a` with more in it: lines at the end of the trace and names in the store. No line
declares a name that was there before, nor one that another of the lines declares. -/
structure Grows (limit : Nat) (a b : State) : Prop where
  trace : ∃ events : List Event, b.trace.toList = a.trace.toList ++ events ∧
    (events.filterMap Event.declares?).Nodup ∧
    ∀ name ∈ events.filterMap Event.declares?, ¬ name.In a.store.memory ∧ name.In b.store.memory
  memory : a.store.memory.Grows limit b.store.memory
  halted : b.halted = a.halted

section Grows
variable {limit : Nat} {limits : Limits} {a b c : State} {store : Store} {effect : Effect}

theorem Grows.refl (s : State) : Grows limit s s :=
  ⟨⟨[], by simp, .nil, List.forall_mem_nil _⟩, .refl _, rfl⟩

theorem Declared.In.later {m m' : Memory} {name : Declared} (h : m.Grows limit m')
    (hn : name.In m) : name.In m' := by
  cases name with
  | var name => exact h.vars name hn
  | array name =>
    obtain ⟨elements, ha⟩ := Option.ne_none_iff_exists'.1 hn
    obtain ⟨after, hb, -⟩ := h.arrays name elements ha
    exact Option.ne_none_iff_exists'.2 ⟨after, hb⟩

theorem Grows.trans (h : Grows limit a b) (h' : Grows limit b c) : Grows limit a c := by
  obtain ⟨events, he, hd, hf⟩ := h.trace
  obtain ⟨more, hm, hd', hf'⟩ := h'.trace
  refine ⟨⟨events ++ more, ?_, ?_, ?_⟩, h.memory.trans h'.memory, h'.halted.trans h.halted⟩
  · rw [hm, he, List.append_assoc]
  · -- What the first lines declare is there when the later ones come, so they declare other names.
    rw [List.filterMap_append, List.nodup_append]
    refine ⟨hd, hd', fun name hl other hr heq => ?_⟩
    exact (hf' other hr).1 (heq ▸ (hf name hl).2)
  · intro name hmem
    rw [List.filterMap_append, List.mem_append] at hmem
    rcases hmem with hl | hr
    · exact ⟨(hf name hl).1, (hf name hl).2.later h'.memory⟩
    · exact ⟨fun hn => (hf' name hr).1 (hn.later h.memory), (hf' name hr).2⟩

private theorem allowed_of_size {size : Int32} (hs : 0 < size.toInt)
    (hl : size.toInt.toNat ≤ limit) : Memory.Allowed limit size.toInt.toNat := by
  have hu := size.toInt_lt
  exact ⟨by omega, hl, by omega⟩

theorem Effect.Lawful.grows (h : effect.Lawful limit store) :
    (∀ name ∈ effect.event.declares?, ¬ name.In store.memory ∧ name.In effect.store.memory) ∧
      store.memory.Grows limit effect.store.memory := by
  cases h with
  | @declared name after h =>
    obtain ⟨hn, hm⟩ := Store.declare_eq_ok_iff.1 h
    refine ⟨?_, hm ▸ Memory.grows_setVar _ _ _⟩
    rintro _ ⟨rfl⟩
    simp [Declared.In, hn, hm, Memory.vars_setVar]
  | assigned h =>
    obtain ⟨-, hm⟩ := Store.assign_eq_ok_iff.1 h
    exact ⟨nofun, hm ▸ Memory.grows_setVar _ _ _⟩
  | evaluated text value => exact ⟨nofun, .refl _⟩
  | arrayDeclared h =>
    obtain ⟨hn, hs, hl, hm⟩ := Store.declareArray_eq_ok_iff.1 h
    refine ⟨?_, hm ▸ Memory.grows_setArray (fun _ => ?_) fun before hb => ?_⟩
    · rintro _ ⟨rfl⟩
      simp [Declared.In, hn, hm, Memory.arrays_setArray]
    · rw [List.length_replicate]
      exact allowed_of_size hs hl
    · cases hn.symm.trans hb
  | elementRead h => exact ⟨nofun, .refl _⟩
  | elementWritten h =>
    obtain ⟨elements, ha, -, -, hm⟩ := Store.write_eq_ok_iff.1 h
    refine ⟨nofun, hm ▸ Memory.grows_setArray (fun hn => ?_) fun before hb => ?_⟩
    · cases hn.symm.trans ha
    · obtain rfl := Option.some.inj (ha.symm.trans hb)
      exact List.length_set

private theorem grows_push {event : Event} (ht : b.trace = a.trace.push event)
    (hf : ∀ name ∈ event.declares?, ¬ name.In a.store.memory ∧ name.In b.store.memory)
    (hm : a.store.memory.Grows limit b.store.memory) (hh : b.halted = a.halted) :
    Grows limit a b := by
  refine ⟨⟨[event], by simp [ht], ?_, ?_⟩, hm, hh⟩
  · cases hd : event.declares? with
    | none => simp [hd]
    | some name => simp [hd]
  · intro name hn
    obtain ⟨_, he, hd⟩ := List.mem_filterMap.1 hn
    obtain rfl := List.mem_singleton.1 he
    exact hf name hd

theorem Change.grows (h : Change limit a b) : Grows limit a b := by
  cases h with
  | effect he => exact grows_push rfl he.grows.1 he.grows.2 rfl
  | @test event ht =>
    refine grows_push rfl ?_ (.refl _) rfl
    cases event with
    | declared name => cases ht
    | arrayDeclared name size => cases ht
    | _ => nofun
  | count => exact ⟨⟨[], by simp, .nil, List.forall_mem_nil _⟩, .refl _, rfl⟩

theorem grows_of_changes (h : ReflTransGen (Change limit) a b) : Grows limit a b := by
  induction h with
  | refl => exact .refl _
  | tail _ hc ih => exact ih.trans hc.grows

private theorem executeAll_grows {fuel : Nat} {blocks : List Block} {result : Option Fault}
    {c d : Config} (h : executeAll limits fuel blocks c = .ofResult result d) :
    Grows limits.maxArrayLength c.state d.state :=
  grows_of_changes (reaches_of_executeAll h).changes

end Grows

/-- Every array has a length that is allowed. -/
def State.Sized (limit : Nat) (s : State) : Prop :=
  ∀ name elements, s.store.memory.arrays name = some elements →
    Memory.Allowed limit elements.length

namespace Session
variable {s t : Session} {program : List Block}

theorem grows_point (s : Session) (program : List Block) {n k : Nat} (h : n ≤ k) :
    Grows s.limits.maxArrayLength (s.point program n) (s.point program k) := by
  obtain ⟨j, rfl⟩ := Nat.exists_eq_add_of_le h
  have hr : Reaches s.limits ((step s.limits)^[n] (s.machine program))
      ((step s.limits)^[n + j] (s.machine program)) :=
    ⟨j, by rw [Nat.add_comm, Function.iterate_add_apply]⟩
  exact grows_of_changes hr.changes

/-- A run starts without arrays, so all that it has are new. -/
theorem sized_of_grows {limit : Nat} {state : State} (h : Grows limit {} state) :
    state.Sized limit := by
  intro name elements ha
  refine h.memory.added name elements ?_ ha
  rw [Store.memory_empty]
  rfl

theorem sized_point (s : Session) (program : List Block) (n : Nat) :
    (s.point program n).Sized s.limits.maxArrayLength :=
  sized_of_grows (s.grows_point program (Nat.zero_le n))

/-- A run starts without lines, so no name is declared twice in all that it has. -/
theorem nodup_point (s : Session) (program : List Block) (n : Nat) :
    ((s.point program n).trace.toList.filterMap Event.declares?).Nodup := by
  obtain ⟨events, he, hd, -⟩ := (s.grows_point program (Nat.zero_le n)).trace
  have hz : (s.point program 0).trace.toList = [] := rfl
  rw [he, hz, List.nil_append]
  exact hd

/-- The end of a run is its last point, and a line more if the run was aborted. -/
theorem exists_point_of_ends (h : s.Ends program t) :
    ∃ last, (∀ n, last ≤ n → s.point program n = s.point program last) ∧
      t.state.store = (s.point program last).store ∧
      ∃ more, t.state.trace.toList = (s.point program last).trace.toList ++ more ∧
        more.filterMap Event.declares? = [] := by
  obtain ⟨result, c, ⟨last, hl⟩, rfl⟩ := ends_iff.1 h
  have hp : ∀ n, last ≤ n → s.point program n = c.state := by
    intro n hn
    rw [point, Machine.iterate_of_stopped hl hn]
    rfl
  refine ⟨last, fun n hn => (hp n hn).trans (hp last (Nat.le_refl _)).symm, ?_⟩
  rw [hp last (Nat.le_refl _)]
  cases result with
  | none => exact ⟨rfl, [], (List.append_nil _).symm, rfl⟩
  | some fault => exact ⟨rfl, [.halted fault], by simp [after, State.halt], rfl⟩

end Session

/-- Blocks only add to the state that they start from, also where they fail. So from each point of a
run to every later one nothing is taken back and no name is declared again, all arrays have at all
times a length from one up to the limit, and this goes for the state that the run leaves, whose
trace declares no name twice. -/
theorem execution_only_adds :
    (∀ limits fuel blocks c result d, executeAll limits fuel blocks c = .ofResult result d →
      Grows limits.maxArrayLength c.state d.state) ∧
    ∀ (s : Session) (program : List Block),
      (∀ n k, n ≤ k →
        Grows s.limits.maxArrayLength (s.point program n) (s.point program k)) ∧
      (∀ n, (s.point program n).Sized s.limits.maxArrayLength) ∧
      ∀ t, s.Ends program t → t.state.Sized s.limits.maxArrayLength ∧
        (t.state.trace.toList.filterMap Event.declares?).Nodup ∧
        ∀ n, (s.point program n).trace.toList <+: t.state.trace.toList ∧
          (s.point program n).store.memory.Grows s.limits.maxArrayLength t.state.store.memory := by
  refine ⟨fun limits fuel blocks c result d h => executeAll_grows h, fun s program =>
    ⟨fun n k h => s.grows_point program h, s.sized_point program, fun t ht => ?_⟩⟩
  obtain ⟨last, hl, hs, more, ht, hd⟩ := Session.exists_point_of_ends ht
  refine ⟨?_, ?_, fun n => ?_⟩
  · intro name elements ha
    exact s.sized_point program last name elements (hs ▸ ha)
  · rw [ht, List.filterMap_append, hd, List.append_nil]
    exact s.nodup_point program last
  · have hg : Grows s.limits.maxArrayLength (s.point program n) (s.point program last) := by
      rcases Nat.le_total n last with h | h
      · exact s.grows_point program h
      · rw [hl n h]
        exact .refl _
    obtain ⟨events, he, -⟩ := hg.trace
    refine ⟨List.IsPrefix.trans ⟨events, he.symm⟩ ⟨more, ht.symm⟩, hs ▸ hg.memory⟩

/-- The second name of the list is there already. The array and the first name were added to a state
that keeps what it had; and a run of these blocks, which completes, has no other array. -/
theorem failed_declaration_only_adds :
    (∃ d, executeAll { maxArrayLength := 2 } 1 [.declareSized "a" "2", .declareNames "y, x"]
        ⟨{ store := { vars := (∅ : Expression.Variables).insert "x" 5 } }, true⟩ =
        .ofResult (some (.store (.duplicateVariable "x"))) d ∧
      d.state.store.vars["x"]? = some 5 ∧ d.state.store.vars["y"]? = some 0 ∧
      d.state.store.arrays["a"]?.map Store.Cells.length = some 2 ∧
      Grows 2 { store := { vars := (∅ : Expression.Variables).insert "x" 5 } } d.state) ∧
    ∃ t, Session.Ends { limits := { maxArrayLength := 2 } }
        [.declareSized "a" "2", .declareNames "y, x"] t ∧
      t.state.Sized 2 := by
  obtain ⟨hx, hs⟩ := execution_only_adds
  constructor
  · have h : executeAll { maxArrayLength := 2 } 1 [.declareSized "a" "2", .declareNames "y, x"]
        ⟨{ store := { vars := (∅ : Expression.Variables).insert "x" 5 } }, true⟩ =
        .ofResult (some (.store (.duplicateVariable "x")))
          ⟨{ store := ⟨((∅ : Expression.Variables).insert "x" 5).insert "y" 0,
              (∅ : Std.ExtTreeMap String Store.Cells).insert "a" (Store.Cells.zeros 2)⟩
             trace := #[.arrayDeclared "a" 2, .declared "y"] }, true⟩ := by
      cbv
    exact ⟨_, h, by cbv, by cbv, by cbv, hx _ _ _ _ _ _ h⟩
  · have hr : (Session.runFor 1 { limits := { maxArrayLength := 2 } }
        [.declareSized "a" "2", .declareNames "y, x"]).isSome := by
      cbv
    obtain ⟨t, ht⟩ := Option.isSome_iff_exists.1 hr
    exact ⟨t, ⟨1, ht⟩, ((hs _ _).2.2 t ⟨1, ht⟩).1⟩

end BlockTrace.Run
