import BlockTrace.Proofs.Run.Changes
import BlockTrace.Proofs.Run.Refinement
import BlockTrace.Proofs.Store.Memory
import Mathlib

/-! The trace as a log of the store. Its events are done over again on plain tables, which refuse
an event that does not fit them. The trace of a run is taken whole, and leaves the tables with what
the store holds. -/
namespace BlockTrace.Run
open Program (Block)
open Relation (ReflTransGen)
open Store (Memory)

/-- An event over again. A name that is declared must be new, and one that is used must be known;
an index must lie in its array, and what is read must be what stands there. -/
def Event.replay (m : Memory) : Event → Option Memory
  | declared name => if m.vars name = none then some (m.setVar name 0) else none
  | assigned name value => if m.vars name = none then none else some (m.setVar name value)
  | arrayDeclared name size =>
    if m.arrays name = none ∧ 0 < size.toInt then
      some (m.setArray name (List.replicate size.toInt.toNat 0))
    else none
  | elementRead name index value =>
    (m.arrays name).bind fun elements =>
      if 0 ≤ index.toInt ∧ elements[index.toInt.toNat]? = some value then some m else none
  | elementWritten name index value =>
    (m.arrays name).bind fun elements =>
      if 0 ≤ index.toInt ∧ index.toInt.toNat < elements.length then
        some (m.setArray name (elements.set index.toInt.toNat value))
      else none
  | evaluated .. | tested .. | branched .. | looped .. | halted _ | note _ => some m

def replay (events : List Event) (m : Memory) : Option Memory :=
  events.foldlM Event.replay m

/-- What the event says is what happened to the store. -/
def Effect.Faithful (store : Store) (effect : Effect) : Prop :=
  effect.event.replay store.memory = some effect.store.memory

/-- An operation on the store does to the tables what its event says. -/
theorem Effect.Lawful.faithful {limit : Nat} {store : Store} {effect : Effect}
    (h : effect.Lawful limit store) : effect.Faithful store := by
  cases h with
  | declared h =>
    obtain ⟨hn, hm⟩ := Store.declare_eq_ok_iff.1 h
    simp [Effect.Faithful, Event.replay, hn, hm]
  | assigned h =>
    obtain ⟨hn, hm⟩ := Store.assign_eq_ok_iff.1 h
    simp [Effect.Faithful, Event.replay, hn, hm]
  | evaluated text value => rfl
  | arrayDeclared h =>
    obtain ⟨hn, hs, -, hm⟩ := Store.declareArray_eq_ok_iff.1 h
    simp [Effect.Faithful, Event.replay, hn, hs, hm]
  | elementRead h =>
    obtain ⟨elements, ha, hi, hv⟩ := Store.read_eq_ok_iff.1 h
    rw [Effect.Faithful, Event.replay, ha, Option.bind_some, if_pos ⟨hi, hv⟩]
  | elementWritten h =>
    obtain ⟨elements, ha, hi, hl, hm⟩ := Store.write_eq_ok_iff.1 h
    rw [Effect.Faithful, Event.replay, ha, Option.bind_some, if_pos ⟨hi, hl⟩, hm]

/-- The trace so far says what the store holds. -/
def State.Logged (s : State) : Prop :=
  replay s.trace.toList Memory.empty = some s.store.memory

section Logged
variable {c : Config} {s : State}

private theorem replay_push (events : Array Event) (event : Event) (m : Memory) :
    replay (events.push event).toList m =
      (replay events.toList m).bind fun after => event.replay after := by
  simp [replay]

private theorem logged_start : ({} : State).Logged := by
  simp [State.Logged, replay, Store.memory_empty]

theorem State.Logged.apply {effect : Effect} (h : s.Logged) (he : effect.Faithful s.store) :
    (s.apply effect).Logged := by
  unfold State.Logged at h ⊢
  rw [State.apply, replay_push, h, Option.bind_some]
  exact he

theorem State.Logged.emit {event : Event} (h : s.Logged)
    (he : ∀ m, event.replay m = some m) : (s.emit event).Logged := by
  unfold State.Logged at h ⊢
  rw [State.emit, replay_push, h, Option.bind_some, he]

theorem State.Logged.halt (h : s.Logged) (fault : Fault) : (s.halt fault).Logged := by
  unfold State.Logged at h ⊢
  rw [State.halt, replay_push, h]
  rfl

private theorem replay_of_isTest {event : Event} (h : event.isTest = true) (m : Memory) :
    event.replay m = some m := by
  cases event with
  | tested condition outcome => rfl
  | branched condition outcome => rfl
  | looped condition outcome => rfl
  | _ => cases h

theorem Change.logged {limit : Nat} {s t : State} (hc : Change limit s t) (h : s.Logged) :
    t.Logged := by
  cases hc with
  | effect he => exact h.apply he.faithful
  | test ht => exact h.emit (replay_of_isTest ht)
  | count => exact h

theorem logged_of_changes {limit : Nat} {s t : State} (hc : ReflTransGen (Change limit) s t)
    (h : s.Logged) : t.Logged := by
  induction hc with
  | refl => exact h
  | tail _ hc ih => exact hc.logged ih

private theorem Session.after_logged (s : Session) (result : Option Fault) (h : c.state.Logged) :
    (s.after result c).state.Logged := by
  cases result with
  | none => exact h
  | some fault => exact h.halt fault

end Logged

/-- The trace of a run, completed or aborted, is a faithful log: done over again from nothing, none
of its events is refused, and the tables that they leave are those of the store after the run and
of no other store. -/
theorem trace_replays_to_store (s t : Session) (program : List Block) (h : s.Ends program t) :
    ∃ m, replay t.state.trace.toList Memory.empty = some m ∧
      ∀ store : Store, store.memory = m ↔ store = t.state.store := by
  obtain ⟨result, c, hr, rfl⟩ := Session.ends_iff.1 h
  have hc : c.state.Logged := logged_of_changes hr.changes logged_start
  exact ⟨_, Session.after_logged s result hc, fun store => Store.memory_injective.eq_iff⟩

/-- A run that writes to an array and then fails in the middle of a list of declarations. -/
theorem failed_declaration_replays :
    ∃ t, Session.Ends {} [.declareSized "a" "2", .loop "0 < 1"
        [.setAt "a" "1" "7", .getAt "a" "+1", .declareNames "x, y, x, z"]] t ∧
      t.AbortedBy (.store (.duplicateVariable "x")) ∧
      ∃ m, replay t.state.trace.toList Memory.empty = some m ∧
        m.arrays "a" = some [0, 7] ∧ m.vars "y" = some 0 ∧ m.vars "z" = none := by
  have hr : (Session.run {} [.declareSized "a" "2", .loop "0 < 1"
      [.setAt "a" "1" "7", .getAt "a" "+1", .declareNames "x, y, x, z"]]).map
        (fun t => (t.state.halted, t.state.trace.back?,
          t.state.store.arrays["a"]?.map Store.Cells.toList,
          t.state.store.vars["y"]?, t.state.store.vars["z"]?)) =
      some (true, some (.halted (.store (.duplicateVariable "x"))), some [0, 7], some 0, none) := by
    cbv
  obtain ⟨t, ht, hv⟩ := Option.map_eq_some_iff.1 hr
  simp only [Prod.mk.injEq] at hv
  obtain ⟨hh, hb, ha, hy, hz⟩ := hv
  obtain ⟨m, hm, hs⟩ := trace_replays_to_store {} t _ ⟨_, ht⟩
  obtain rfl := (hs t.state.store).2 rfl
  exact ⟨t, ⟨_, ht⟩, ⟨hh, hb⟩, _, hm, ha, hy, hz⟩

end BlockTrace.Run
