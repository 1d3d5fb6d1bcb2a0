import BlockTrace.Proofs.Run.Changes
import BlockTrace.Proofs.Run.Refinement
import BlockTrace.Proofs.Store.Memory
import Mathlib

/-! A program changes only what its blocks name. What one step may change is read off the block that
it takes, and the blocks that a program takes are among those that stand in it. -/
namespace BlockTrace.Text

/-- The pieces of a text are what the commas leave of it, in order. -/
theorem pieces_eq_splitOn (mark : Char) (text : List Char) :
    pieces mark text = text.splitOn mark := by
  induction text with
  | nil => rfl
  | cons c rest ih =>
    rw [List.splitOn_cons_eq_if_modifyHead, ← ih, pieces]
    by_cases hc : c = mark
    · simp [hc]
    · simp only [hc, if_false, beq_iff_eq]
      cases hp : pieces mark rest with
      | nil => exact absurd (ih.symm.trans hp) (List.splitOn_ne_nil mark rest)
      | cons first more => rfl

end BlockTrace.Text

namespace BlockTrace.Program

/-- The parameters of an access to an element of an array. -/
structure Parameters.Accesses (p : Parameters) (array : String) (index : Int32)
    (operation : String) : Prop where
  array : p.get? .arrayName = some array
  index : p.integer? .index = some index
  operation : p.get? .operation = some operation

namespace Block

mutual

/-- A block and the blocks in it, at every depth. -/
def parts : Block → List Block
  | ifThen p body => ifThen p body :: partsAll body
  | ifElse p thenBranch elseBranch =>
    ifElse p thenBranch elseBranch :: (partsAll thenBranch ++ partsAll elseBranch)
  | whileLoop p body => whileLoop p body :: partsAll body
  | declareVars p => [declareVars p]
  | assign p => [assign p]
  | arithmetic p => [arithmetic p]
  | declareArray p => [declareArray p]
  | arrayAccess p => [arrayAccess p]

def partsAll : List Block → List Block
  | [] => []
  | block :: rest => parts block ++ partsAll rest

end

/-- The block itself declares the variable or assigns to it. -/
def NamesVar (name : String) : Block → Prop
  | declareVars p => ∃ names, p.get? .names = some names ∧
      ∃ piece ∈ names.toList.splitOn ',', Text.trim piece = name.toList
  | assign p => p.get? .varName = some name
  | _ => False

def NamesArray (name : String) : Block → Prop
  | declareArray p => p.get? .name = some name
  | _ => False

/-- The block itself sets the element, however its index is spelled. -/
def SetsElement (name : String) (i : Nat) : Block → Prop
  | arrayAccess p => ∃ index, p.Accesses name index "set" ∧ index.toInt = i
  | _ => False

private theorem mem_parts (block : Block) : block ∈ block.parts := by
  cases block <;> simp [parts]

theorem partsAll_append (front rest : List Block) :
    partsAll (front ++ rest) = partsAll front ++ partsAll rest := by
  induction front with
  | nil => rfl
  | cons block front ih => rw [List.cons_append, partsAll, ih, partsAll, List.append_assoc]

/-- What a block leaves to be executed stood in it, or is the block itself. -/
theorem partsAll_front_subset {block : Block} {front : List Block} (h : front ∈ Run.fronts block) :
    partsAll front ⊆ block.parts := by
  cases block with
  | ifThen p body =>
    simp only [Run.fronts, List.mem_cons, List.not_mem_nil, or_false] at h
    rcases h with rfl | rfl <;> simp [parts, partsAll]
  | ifElse p thenBranch elseBranch =>
    simp only [Run.fronts, List.mem_cons, List.not_mem_nil, or_false] at h
    rcases h with rfl | rfl <;> simp [parts, List.subset_cons_of_subset]
  | whileLoop p body =>
    simp only [Run.fronts, List.mem_cons, List.not_mem_nil, or_false] at h
    rcases h with rfl | rfl
    · simp [partsAll_append, parts, partsAll]
    · simp [partsAll]
  | _ =>
    obtain rfl := List.mem_singleton.1 h
    simp [partsAll]

end Block

end BlockTrace.Program

namespace BlockTrace.Store.Memory
open Program (Block)

def element (m : Memory) (name : String) (i : Nat) : Option Int32 :=
  (m.arrays name).bind fun elements => elements[i]?

/-- Nothing is different but what the blocks name: variables, which arrays there are and how long,
and the elements that there were. -/
structure ChangedBy (blocks : List Block) (a b : Memory) : Prop where
  vars : ∀ name, (∀ block ∈ blocks, ¬ block.NamesVar name) → b.vars name = a.vars name
  arrays : ∀ name, (∀ block ∈ blocks, ¬ block.NamesArray name) →
    (b.arrays name).map List.length = (a.arrays name).map List.length
  elements : ∀ name i value, a.element name i = some value →
    (∀ block ∈ blocks, ¬ block.SetsElement name i) → b.element name i = some value

variable {blocks more : List Block} {block : Block} {a b c m : Memory} {name : String}

theorem ChangedBy.refl (m : Memory) : m.ChangedBy blocks m :=
  ⟨fun _ _ => rfl, fun _ _ => rfl, fun _ _ _ h _ => h⟩

theorem ChangedBy.trans (h : a.ChangedBy blocks b) (h' : b.ChangedBy blocks c) :
    a.ChangedBy blocks c where
  vars := fun name hn => (h'.vars name hn).trans (h.vars name hn)
  arrays := fun name hn => (h'.arrays name hn).trans (h.arrays name hn)
  elements := fun name i value hv hn =>
    h'.elements name i value (h.elements name i value hv hn) hn

theorem ChangedBy.mono (h : a.ChangedBy blocks b) (hs : blocks ⊆ more) : a.ChangedBy more b where
  vars := fun name hn => h.vars name fun block hb => hn block (hs hb)
  arrays := fun name hn => h.arrays name fun block hb => hn block (hs hb)
  elements := fun name i value hv hn =>
    h.elements name i value hv fun block hb => hn block (hs hb)

theorem changedBy_setVar (hb : block.NamesVar name) (m : Memory) (value : Int32) :
    m.ChangedBy [block] (m.setVar name value) where
  vars := by
    intro other hn
    rw [vars_setVar, if_neg]
    rintro rfl
    exact hn block List.mem_cons_self hb
  arrays := fun _ _ => rfl
  elements := fun _ _ _ h _ => h

/-- A new array takes the place of none, so that there is no element to lose. -/
theorem changedBy_setArray (hb : block.NamesArray name) (hn : m.arrays name = none)
    (elements : List Int32) : m.ChangedBy [block] (m.setArray name elements) where
  vars := fun _ _ => rfl
  arrays := by
    intro other ho
    rw [arrays_setArray, if_neg]
    rintro rfl
    exact ho block List.mem_cons_self hb
  elements := by
    intro other i value hv _
    have hne : other ≠ name := by
      rintro rfl
      simp [element, hn] at hv
    rw [element, arrays_setArray, if_neg hne]
    exact hv

private theorem changedBy_setElement {elements : List Int32} {i : Nat}
    (hb : block.SetsElement name i) (ha : m.arrays name = some elements) (value : Int32) :
    m.ChangedBy [block] (m.setArray name (elements.set i value)) where
  vars := fun _ _ => rfl
  arrays := by
    intro other _
    rw [arrays_setArray]
    split
    next he => simp [he, ha]
    · rfl
  elements := by
    intro other j before hv hn
    rw [element, arrays_setArray]
    split
    next he =>
      subst he
      have hij : i ≠ j := by
        rintro rfl
        exact hn block List.mem_cons_self hb
      rw [element, ha, Option.bind_some] at hv
      rw [Option.bind_some, List.getElem?_set_ne hij, hv]
    · exact hv

end BlockTrace.Store.Memory

namespace BlockTrace.Run
open Program (Block Key Parameters)
open Machine (running stopped step)
open Store (Memory)

section Actions
variable {store : Store} {p : Parameters} {effect : Effect} {limit : Nat} {name : String}

theorem namesVar_of_mem_listedNames {names : String} (hp : p.get? .names = some names)
    (h : name ∈ listedNames names) : (Block.declareVars p).NamesVar name := by
  obtain ⟨piece, hm, rfl⟩ := List.mem_map.1 h
  rw [Text.pieces_eq_splitOn] at hm
  exact ⟨names, hp, piece, hm, String.toList_ofList.symm⟩

private theorem declareName_changedBy {block : Block} (hb : block.NamesVar name)
    (h : declareName name store = .ok effect) :
    store.memory.ChangedBy [block] effect.store.memory := by
  obtain ⟨-, after, ha, rfl⟩ := declareName_cases h
  obtain ⟨-, hm⟩ := Store.declare_eq_ok_iff.1 ha
  exact hm ▸ Memory.changedBy_setVar hb _ _

/-- Also where a name fails, only names of the list were declared. -/
theorem declareEach_changedBy {block : Block} (names : List String) (s : State)
    (hb : ∀ name ∈ names, block.NamesVar name) :
    s.store.memory.ChangedBy [block] (declareEach names s).1.store.memory := by
  induction names generalizing s with
  | nil => exact .refl _
  | cons name rest ih =>
    rw [List.forall_mem_cons] at hb
    rw [declareEach]
    cases hd : declareName name s.store with
    | error fault => exact .refl _
    | ok effect => exact (declareName_changedBy hb.1 hd).trans (ih (s.apply effect) hb.2)

private theorem declareVars_changedBy (p : Parameters) (s : State) :
    s.store.memory.ChangedBy [.declareVars p] (declareVars p s).1.store.memory := by
  unfold declareVars
  cases hr : require p .names with
  | error fault => exact .refl _
  | ok names =>
    exact declareEach_changedBy _ s fun name hn =>
      namesVar_of_mem_listedNames (require_eq_ok_iff.1 hr) hn

private theorem assign_changedBy (h : assign p store = .ok effect) :
    store.memory.ChangedBy [.assign p] effect.store.memory := by
  obtain ⟨name, text, value, after, hn, -, -, ha, rfl⟩ := assign_cases h
  obtain ⟨-, hm⟩ := Store.assign_eq_ok_iff.1 ha
  have hb : (Block.assign p).NamesVar name := hn
  exact hm ▸ Memory.changedBy_setVar hb _ _

private theorem arithmetic_changedBy (h : arithmetic p store = .ok effect) :
    store.memory.ChangedBy [.arithmetic p] effect.store.memory := by
  obtain ⟨text, value, -, -, rfl⟩ := arithmetic_cases h
  exact .refl _

private theorem declareArray_changedBy (h : declareArray limit p store = .ok effect) :
    store.memory.ChangedBy [.declareArray p] effect.store.memory := by
  obtain ⟨name, size, after, hn, -, ha, rfl⟩ := declareArray_cases h
  obtain ⟨hnew, -, -, hm⟩ := Store.declareArray_eq_ok_iff.1 ha
  have hb : (Block.declareArray p).NamesArray name := hn
  exact hm ▸ Memory.changedBy_setArray hb hnew _

/-- What an access does that succeeds: it reads the element, or it writes it. -/
theorem arrayAccess_cases (h : arrayAccess p store = .ok effect) :
    ∃ name index,
      (p.Accesses name index "get" ∧ ∃ value, store.read name index = .ok value ∧
        effect = ⟨store, .elementRead name index value⟩) ∨
      (p.Accesses name index "set" ∧ ∃ value after, p.integer? .value = some value ∧
        store.write name index value = .ok after ∧
        effect = ⟨after, .elementWritten name index value⟩) := by
  obtain ⟨name, hn, h⟩ := bind_eq_ok_iff.1 h
  obtain ⟨index, hi, h⟩ := bind_eq_ok_iff.1 h
  obtain ⟨operation, ho, h⟩ := bind_eq_ok_iff.1 h
  obtain ⟨current, hc, h⟩ := bind_eq_ok_iff.1 h
  have hp : p.Accesses name index operation :=
    ⟨require_eq_ok_iff.1 hn, requireInteger_eq_ok_iff.1 hi, require_eq_ok_iff.1 ho⟩
  refine ⟨name, index, ?_⟩
  split at h
  next hget =>
    cases h
    exact .inl ⟨hget ▸ hp, current, mapError_eq_ok_iff.1 hc, rfl⟩
  · split at h
    next hset =>
      obtain ⟨value, hv, h⟩ := bind_eq_ok_iff.1 h
      obtain ⟨after, ha, hr⟩ := bind_eq_ok_iff.1 h
      cases hr
      exact .inr ⟨hset ▸ hp, value, after, requireInteger_eq_ok_iff.1 hv,
        mapError_eq_ok_iff.1 ha, rfl⟩
    · cases h

private theorem arrayAccess_changedBy (h : arrayAccess p store = .ok effect) :
    store.memory.ChangedBy [.arrayAccess p] effect.store.memory := by
  obtain ⟨name, index, ⟨-, value, -, rfl⟩ | ⟨hp, value, after, -, hw, rfl⟩⟩ := arrayAccess_cases h
  · exact .refl _
  · obtain ⟨elements, ha, hi, -, hm⟩ := Store.write_eq_ok_iff.1 hw
    have hb : (Block.arrayAccess p).SetsElement name index.toInt.toNat :=
      ⟨index, hp, (Int.toNat_of_nonneg hi).symm⟩
    exact hm ▸ Store.Memory.changedBy_setElement hb ha value

end Actions

section Steps
variable {limits : Limits} {block : Block} {blocks : List Block} {c : Config} {m : Machine}

private theorem ofEffect_changedBy {x : Except Fault Effect}
    (h : ∀ effect, x = .ok effect →
      c.state.store.memory.ChangedBy [block] effect.store.memory) :
    c.state.store.memory.ChangedBy [block]
      (Advance.ofEffect c x).config.state.store.memory := by
  cases x with
  | error fault => exact .refl _
  | ok effect => exact h effect rfl

theorem config_ofPartly (interrupt : Bool) (x : State × Option Fault) :
    (Advance.ofPartly interrupt x).config.state = x.1 := by
  obtain ⟨state, _ | fault⟩ := x <;> rfl

/-- A block changes only what it names itself, whether it fails or not. -/
theorem advance_changedBy (limits : Limits) (block : Block) (c : Config) :
    c.state.store.memory.ChangedBy [block]
      (advance limits block c).config.state.store.memory := by
  cases block with
  | declareVars p =>
    rw [advance_declareVars, config_ofPartly]
    exact declareVars_changedBy p c.state
  | assign p =>
    rw [advance_assign]
    exact ofEffect_changedBy fun _ => assign_changedBy
  | arithmetic p =>
    rw [advance_arithmetic]
    exact ofEffect_changedBy fun _ => arithmetic_changedBy
  | declareArray p =>
    rw [advance_declareArray]
    exact ofEffect_changedBy fun _ => declareArray_changedBy
  | arrayAccess p =>
    rw [advance_arrayAccess]
    exact ofEffect_changedBy fun _ => arrayAccess_changedBy
  | ifThen p body | ifElse p thenBranch elseBranch =>
    simp only [advance]
    rcases decideCondition p c.state.store with fault | ⟨condition, _ | _⟩ <;> exact .refl _
  | whileLoop p body =>
    simp only [advance]
    rcases decideCondition p c.state.store with fault | ⟨condition, _ | _⟩
    · exact .refl _
    · exact .refl _
    · rcases beginIteration_cases limits c with ⟨-, hb⟩ | ⟨-, limit, -, -, hb⟩ | ⟨-, -, hb⟩ <;>
        rw [hb] <;> exact .refl _

namespace Machine

def pending : Machine → List Block
  | running pending _ => pending
  | stopped .. => []

def taken (m : Machine) : List Block :=
  m.pending.take 1

def memory (m : Machine) : Memory :=
  m.config.state.store.memory

private theorem step_changedBy (limits : Limits) (m : Machine) :
    m.memory.ChangedBy m.taken (step limits m).memory := by
  rcases m with ⟨_ | ⟨block, rest⟩, c⟩ | ⟨result, c⟩
  · exact .refl _
  · rw [memory, memory, config_step]
    exact advance_changedBy limits block c
  · exact .refl _

/-- Steps change only what the blocks name that they take. -/
theorem iterate_changedBy (n : Nat)
    (h : ∀ k, k < n → ((step limits)^[k] m).taken ⊆ blocks) :
    m.memory.ChangedBy blocks ((step limits)^[n] m).memory := by
  induction n with
  | zero => exact .refl _
  | succ n ih =>
    rw [Function.iterate_succ_apply']
    have hn := ih fun k hk => h k (Nat.lt_succ_of_lt hk)
    exact hn.trans ((step_changedBy limits _).mono (h n (Nat.lt_succ_self n)))

/-- A step brings up no block that did not stand in those that were pending. -/
theorem partsAll_pending_step (limits : Limits) (m : Machine) :
    Block.partsAll (step limits m).pending ⊆ Block.partsAll m.pending := by
  rcases m with ⟨_ | ⟨block, rest⟩, c⟩ | ⟨result, c⟩
  · exact List.Subset.refl _
  · cases ha : advance limits block c with
    | fail fault d =>
      rw [step_of_fail ha]
      exact List.nil_subset _
    | go front d =>
      rw [step_of_go ha, pending, pending, Block.partsAll_append, Block.partsAll]
      have hf := Block.partsAll_front_subset (mem_fronts_of_advance ha)
      exact List.append_subset.2 ⟨List.subset_append_of_subset_left _ hf,
        List.subset_append_of_subset_right _ (List.Subset.refl _)⟩
  · exact List.Subset.refl _

theorem taken_iterate_subset (limits : Limits) (m : Machine) (n : Nat) :
    ((step limits)^[n] m).taken ⊆ Block.partsAll m.pending := by
  have hp : Block.partsAll ((step limits)^[n] m).pending ⊆ Block.partsAll m.pending := by
    induction n with
    | zero => exact List.Subset.refl _
    | succ n ih =>
      rw [Function.iterate_succ_apply']
      exact List.Subset.trans (partsAll_pending_step limits _) ih
  refine List.Subset.trans ?_ hp
  rw [taken]
  cases ((step limits)^[n] m).pending with
  | nil => exact List.nil_subset _
  | cons block rest =>
    rw [Block.partsAll]
    simpa using .inl block.mem_parts

end Machine

theorem executeAll_changedBy {fuel : Nat} {result : Option Fault} {d : Config}
    (h : executeAll limits fuel blocks c = .ofResult result d) :
    c.state.store.memory.ChangedBy (Block.partsAll blocks) d.state.store.memory := by
  obtain ⟨n, hn⟩ := reaches_of_executeAll h
  have hc := Machine.iterate_changedBy n fun k _ =>
    Machine.taken_iterate_subset limits (running blocks c) k
  rw [hn] at hc
  exact hc

end Steps

section Elements
variable {limits : Limits} {store after : Store} {p q : Parameters} {effect : Effect}
  {name : String} {index value : Int32} {c d e : Config} {m : Machine}

theorem element_of_set (hp : p.Accesses name index "set") (hv : p.integer? .value = some value)
    (h : arrayAccess p store = .ok effect) :
    0 ≤ index.toInt ∧
      effect.store.memory.element name index.toInt.toNat = some value := by
  obtain ⟨other, place, ⟨ho, -⟩ | ⟨ho, written, after, hw, hs, rfl⟩⟩ := arrayAccess_cases h
  · exact absurd (Option.some.inj (hp.operation.symm.trans ho.operation)) (by decide)
  · obtain rfl := Option.some.inj (hp.array.symm.trans ho.array)
    obtain rfl := Option.some.inj (hp.index.symm.trans ho.index)
    obtain rfl := Option.some.inj (hv.symm.trans hw)
    obtain ⟨elements, -, hi, hl, hm⟩ := Store.write_eq_ok_iff.1 hs
    refine ⟨hi, ?_⟩
    rw [hm, Memory.element, Memory.arrays_setArray, if_pos rfl, Option.bind_some,
      List.getElem?_set_self hl]

theorem get_of_element (hq : q.Accesses name index "get") (hi : 0 ≤ index.toInt)
    (h : store.memory.element name index.toInt.toNat = some value) :
    arrayAccess q store = .ok ⟨store, .elementRead name index value⟩ := by
  obtain ⟨elements, ha, hv⟩ := Option.bind_eq_some_iff.1 h
  have hr : store.read name index = .ok value := Store.read_eq_ok_iff.2 ⟨elements, ha, hi, hv⟩
  rw [arrayAccess, require_eq_ok_iff.2 hq.array, ok_bind, requireInteger_eq_ok_iff.2 hq.index,
    ok_bind, require_eq_ok_iff.2 hq.operation, ok_bind, hr]
  rfl

/-- Between an access that sets and one that gets, nothing sets the element again. -/
theorem get_of_set {blocks : List Block} (hp : p.Accesses name index "set")
    (hv : p.integer? .value = some value) (hq : q.Accesses name index "get")
    (hs : arrayAccess p store = .ok effect)
    (hc : effect.store.memory.ChangedBy blocks after.memory)
    (hn : ∀ block ∈ blocks, ¬ block.SetsElement name index.toInt.toNat) :
    arrayAccess q after = .ok ⟨after, .elementRead name index value⟩ := by
  obtain ⟨hi, he⟩ := element_of_set hp hv hs
  exact get_of_element hq hi (hc.elements _ _ _ he hn)

private theorem ofEffect_eq_completed {x : Except Fault Effect}
    (h : Outcome.ofEffect c x = .completed d) :
    ∃ effect, x = .ok effect ∧ d = c.apply effect := by
  cases x with
  | error fault => cases h
  | ok effect =>
    cases h
    exact ⟨effect, rfl, rfl⟩

private theorem ofEffect_eq_go {x : Except Fault Effect} {front : List Block}
    (h : Advance.ofEffect c x = .go front d) : ∃ effect, x = .ok effect ∧ d = c.apply effect := by
  cases x with
  | error fault => cases h
  | ok effect =>
    cases h
    exact ⟨effect, rfl, rfl⟩

private theorem execute_get_of_set {fuel : Nat} {segment : List Block}
    (hp : p.Accesses name index "set") (hv : p.integer? .value = some value)
    (hq : q.Accesses name index "get")
    (hs : execute limits fuel (.arrayAccess p) c = .completed d)
    (hx : executeAll limits fuel segment d = .completed e)
    (hn : ∀ block ∈ Block.partsAll segment, ¬ block.SetsElement name index.toInt.toNat) :
    execute limits fuel (.arrayAccess q) e =
      .completed (e.emit (.elementRead name index value)) := by
  rw [execute_arrayAccess] at hs
  obtain ⟨effect, he, rfl⟩ := ofEffect_eq_completed hs
  have hx' : executeAll limits fuel segment _ = .ofResult none e := hx
  have hc := executeAll_changedBy hx'
  rw [execute_arrayAccess, get_of_set hp hv hq he hc hn]
  rfl

/-- The same for two steps of a machine, at whatever depth the two accesses stand. -/
theorem Machine.step_get_of_set {n k : Nat} {rest more : List Block}
    (hp : p.Accesses name index "set") (hv : p.integer? .value = some value)
    (hq : q.Accesses name index "get")
    (hset : (step limits)^[n] m = running (.arrayAccess p :: rest) c)
    (hs : advance limits (.arrayAccess p) c = .go [] d) (hk : n < k)
    (hget : (step limits)^[k] m = running (.arrayAccess q :: more) e)
    (hn : ∀ j, n < j → j < k → ∀ block ∈ ((step limits)^[j] m).taken,
      ¬ block.SetsElement name index.toInt.toNat) :
    (step limits)^[k + 1] m = running more (e.emit (.elementRead name index value)) := by
  obtain ⟨j, rfl⟩ := Nat.exists_eq_add_of_le (Nat.succ_le_of_lt hk)
  -- After the step that sets, `j` steps lead to the one that gets.
  have hd : (step limits)^[n.succ] m = running rest d := by
    rw [Function.iterate_succ_apply', hset, step_of_go hs]
    rfl
  have hj : (step limits)^[j] (running rest d) = running (.arrayAccess q :: more) e := by
    rw [← hd, ← Function.iterate_add_apply, Nat.add_comm, hget]
  have hc : (running rest d).memory.ChangedBy
      ((List.range j).flatMap fun i => ((step limits)^[i] (running rest d)).taken)
      ((step limits)^[j] (running rest d)).memory := by
    refine iterate_changedBy j fun i hi block hb => ?_
    exact List.mem_flatMap.2 ⟨i, List.mem_range.2 hi, hb⟩
  rw [hj] at hc
  rw [advance_arrayAccess] at hs
  obtain ⟨effect, he, rfl⟩ := ofEffect_eq_go hs
  have hx : arrayAccess q e.state.store = .ok ⟨e.state.store, .elementRead name index value⟩ := by
    refine get_of_set hp hv hq he hc fun block hb => ?_
    obtain ⟨i, hi, hb⟩ := List.mem_flatMap.1 hb
    rw [← hd, ← Function.iterate_add_apply] at hb
    exact hn (i + n.succ) (by omega) (by have := List.mem_range.1 hi; omega) block hb
  have ha : advance limits (.arrayAccess q) e =
      .go [] (e.emit (.elementRead name index value)) := by
    rw [advance_arrayAccess, hx]
    rfl
  rw [Function.iterate_succ_apply', hget, step_of_go ha]
  rfl

end Elements

/-- A program changes only what its blocks name, at whatever depth they stand, and whether it
completes or fails. So a value that was set in an element is the one that is shown by a later access
to it, if nothing in between sets that element; in between may be any blocks that complete, or any
row of steps. -/
theorem blocks_change_what_they_name (limits : Limits) :
    (∀ fuel blocks c result d, executeAll limits fuel blocks c = .ofResult result d →
      c.state.store.memory.ChangedBy (Block.partsAll blocks) d.state.store.memory) ∧
    ∀ p q name index value, p.Accesses name index "set" → p.integer? .value = some value →
      q.Accesses name index "get" →
      (∀ fuel segment c d e, execute limits fuel (.arrayAccess p) c = .completed d →
        executeAll limits fuel segment d = .completed e →
        (∀ block ∈ Block.partsAll segment, ¬ block.SetsElement name index.toInt.toNat) →
        execute limits fuel (.arrayAccess q) e =
          .completed (e.emit (.elementRead name index value))) ∧
      ∀ m n k rest more c d e, (step limits)^[n] m = running (.arrayAccess p :: rest) c →
        advance limits (.arrayAccess p) c = .go [] d → n < k →
        (step limits)^[k] m = running (.arrayAccess q :: more) e →
        (∀ j, n < j → j < k → ∀ block ∈ ((step limits)^[j] m).taken,
          ¬ block.SetsElement name index.toInt.toNat) →
        (step limits)^[k + 1] m = running more (e.emit (.elementRead name index value)) := by
  refine ⟨fun fuel blocks c result d h => executeAll_changedBy h, ?_⟩
  intro p q name index value hp hv hq
  constructor
  · intro fuel segment c d e hs hx hn
    exact execute_get_of_set hp hv hq hs hx hn
  · intro m n k rest more c d e hset hs hk hget hn
    exact Machine.step_get_of_set hp hv hq hset hs hk hget hn

/-- A configuration in which only the array `a` is declared. -/
def Config.ofArray (cells : Store.Cells) (trace : Array Event) : Config :=
  ⟨{ store := { arrays := (∅ : Std.ExtTreeMap String Store.Cells).insert "a" cells }
     trace := trace }, false⟩

/-- Between the two accesses the other element is set. The first element shows what was set before,
also from inside another block; and a declaration that fails at its second name leaves alone the
variable that it does not name. -/
theorem element_shown_after_other_set :
    ∃ c d e f, execute {} 1 (.setAt "a" "+1" "7") c = .completed d ∧
      executeAll {} 1 [.when "0 < 1" [.setAt "a" "0" "5"]] d = .completed e ∧
      execute {} 1 (.getAt "a" "01") e = .completed (e.emit (.elementRead "a" 1 7)) ∧
      (step {})^[3] (running [.setAt "a" "+1" "7", .when "0 < 1" [.getAt "a" "01"]] c) =
        running [] ((d.emit (.tested "0 < 1" true)).emit (.elementRead "a" 1 7)) ∧
      executeAll {} 1 [.declareNames "x, x"] d =
        .ofResult (some (.store (.duplicateVariable "x"))) f ∧
      f.state.store.memory.vars "y" = d.state.store.memory.vars "y" := by
  obtain ⟨hframe, hshown⟩ := blocks_change_what_they_name {}
  have hset : (Block.setAt "a" "+1" "7").parameters.Accesses "a" 1 "set" :=
    ⟨by cbv, by cbv, by cbv⟩
  have hvalue : (Block.setAt "a" "+1" "7").parameters.integer? .value = some 7 := by
    cbv
  have hget : (Block.getAt "a" "01").parameters.Accesses "a" 1 "get" :=
    ⟨by cbv, by cbv, by cbv⟩
  obtain ⟨hblocks, hsteps⟩ := hshown _ _ _ _ _ hset hvalue hget
  have hother : ∀ block ∈ Block.partsAll [.when "0 < 1" [.setAt "a" "0" "5"]],
      ¬ block.SetsElement "a" 1 := by
    have hindex : (Block.setAt "a" "0" "5").parameters.integer? .index = some 0 := by
      cbv
    simp only [Block.when, Block.setAt, Block.partsAll, Block.parts, List.append_nil,
      List.forall_mem_cons, Block.SetsElement, not_false_eq_true, true_and]
    refine ⟨?_, by simp⟩
    rintro ⟨index, hp, hi⟩
    obtain rfl := Option.some.inj (hp.index.symm.trans hindex)
    exact absurd hi (by decide)
  have hnames : ∀ block ∈ Block.partsAll [.declareNames "x, x"], ¬ block.NamesVar "y" := by
    have hp : (Block.declareNames "x, x").parameters.get? .names = some "x, x" := by
      cbv
    simp only [Block.declareNames, Block.partsAll, Block.parts, List.append_nil,
      List.forall_mem_cons, Block.NamesVar]
    refine ⟨?_, by simp⟩
    rintro ⟨names, hn, hpiece⟩
    obtain rfl := Option.some.inj (hn.symm.trans hp)
    revert hpiece
    decide
  have hd : execute {} 1 (.setAt "a" "+1" "7") (.ofArray (.zeros 2) #[]) =
      .completed (.ofArray (Store.Cells.set (.zeros 2) 1 7) #[.elementWritten "a" 1 7]) := by
    cbv
  have he : executeAll {} 1 [.when "0 < 1" [.setAt "a" "0" "5"]]
      (.ofArray (Store.Cells.set (.zeros 2) 1 7) #[.elementWritten "a" 1 7]) =
      .completed (.ofArray (Store.Cells.set (Store.Cells.set (.zeros 2) 1 7) 0 5)
        #[.elementWritten "a" 1 7, .tested "0 < 1" true, .elementWritten "a" 0 5]) := by
    cbv
  have hf : executeAll {} 1 [.declareNames "x, x"]
      (.ofArray (Store.Cells.set (.zeros 2) 1 7) #[.elementWritten "a" 1 7]) =
      .ofResult (some (.store (.duplicateVariable "x")))
        (Config.apply (.ofArray (Store.Cells.set (.zeros 2) 1 7) #[.elementWritten "a" 1 7])
          ⟨⟨(∅ : Expression.Variables).insert "x" 0, (∅ : Std.ExtTreeMap String Store.Cells).insert
            "a" (Store.Cells.set (.zeros 2) 1 7)⟩, .declared "x"⟩) := by
    cbv
  have hg : advance {} (.setAt "a" "+1" "7") (.ofArray (.zeros 2) #[]) =
      .go [] (.ofArray (Store.Cells.set (.zeros 2) 1 7) #[.elementWritten "a" 1 7]) := by
    cbv
  refine ⟨_, _, _, _, hd, he, hblocks _ _ _ _ _ hd he hother, ?_, hf,
    (hframe _ _ _ _ _ hf).vars "y" hnames⟩
  refine hsteps _ 0 2 [.when "0 < 1" [.getAt "a" "01"]] [] _ _
    (Config.emit (.ofArray (Store.Cells.set (.zeros 2) 1 7) #[.elementWritten "a" 1 7])
      (.tested "0 < 1" true)) rfl hg (by decide) ?_ ?_
  · cbv
  · intro j h0 h2
    obtain rfl : j = 1 := by omega
    have ht : ((step {})^[1] (running [.setAt "a" "+1" "7", .when "0 < 1" [.getAt "a" "01"]]
        (.ofArray (.zeros 2) #[]))).taken = [.when "0 < 1" [.getAt "a" "01"]] := by
      cbv
    rw [ht]
    rintro block hb
    obtain rfl := List.mem_singleton.1 hb
    exact id

end BlockTrace.Run
