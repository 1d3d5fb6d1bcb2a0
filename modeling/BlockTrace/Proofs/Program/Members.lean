import BlockTrace.Program.Shape
import BlockTrace.Proofs.Attempt
import Mathlib

/-! Decoding a block looks only at the members that it has a use for, at no more than one of each
name, and not at their order. -/
namespace BlockTrace.Program
open Json (Value)

section Filter
variable (keep : String → Bool)

theorem findKind_filter (hk : keep "kind") (seen : Option Kind) (ms : List (String × Value)) :
    findKind seen (ms.filter fun m => keep m.1) = findKind seen ms := by
  induction ms generalizing seen with
  | nil => rfl
  | cons m ms ih =>
    obtain ⟨name, value⟩ := m
    cases hm : keep name with
    | true => simp only [List.filter_cons, hm, if_true, findKind, ih]
    | false =>
      have hn : name ≠ "kind" := by
        rintro rfl
        simp [hk] at hm
      simp [hm, findKind, hn, ih]

theorem childrenOf_filter {fields : List String} (hf : ∀ field ∈ fields, keep field)
    (seen : List (String × List Block)) (ms : List (String × Value)) :
    childrenOf fields seen (ms.filter fun m => keep m.1) = childrenOf fields seen ms := by
  induction ms generalizing seen with
  | nil => rfl
  | cons m ms ih =>
    obtain ⟨name, value⟩ := m
    cases hm : keep name with
    | true => simp only [List.filter_cons, hm, if_true, childrenOf, ih]
    | false =>
      have hn : name ∉ fields := by
        intro hn
        simp [hf name hn] at hm
      simp [hm, childrenOf, hn, ih]

end Filter

section Fields
variable {name key : String} {v : Value} {ms ms' : List (String × Value)}

/-- The values that stand under a name. -/
def valuesOf (name : String) (ms : List (String × Value)) : List Value :=
  (ms.filter fun m => m.1 = name).map Prod.snd

@[simp]
theorem valuesOf_cons_self : valuesOf name ((name, v) :: ms) = v :: valuesOf name ms := by
  simp [valuesOf]

theorem valuesOf_cons_of_ne (h : key ≠ name) :
    valuesOf name ((key, v) :: ms) = valuesOf name ms := by
  simp [valuesOf, h]

theorem valuesOf_eq_nil (h : name ∉ ms.map Prod.fst) : valuesOf name ms = [] := by
  rw [valuesOf, List.map_eq_nil_iff, List.filter_eq_nil_iff]
  intro m hm hn
  exact h (of_decide_eq_true hn ▸ List.mem_map_of_mem hm)

private theorem valuesOf_perm (h : ms.Perm ms') (name : String) :
    (valuesOf name ms).Perm (valuesOf name ms') :=
  (h.filter _).map _

end Fields

section Finds
variable {α : Type} {decode : Value → Except ShapeFault α} {default seen : Option α}
  {values values' : List Value} {x y : α}

/-- Going through the values that stand under a name gives `x`, when `seen` was found before: there
is at most one value, and without one the result is `default`. -/
def Finds (decode : Value → Except ShapeFault α) (default : Option α) :
    Option α → List Value → α → Prop
  | seen, [], x => seen.or default = some x
  | none, v :: rest, x => ∃ y, decode v = .ok y ∧ Finds decode default (some y) rest x
  | some _, _ :: _, _ => False

theorem finds_singleton {v : Value} : Finds decode default none [v] x ↔ decode v = .ok x := by
  simp [Finds]

theorem not_finds_two {v w : Value} {rest : List Value} :
    ¬ Finds decode default none (v :: w :: rest) x := by
  rintro ⟨y, -, h⟩
  exact h

theorem finds_unique (h : Finds decode default none values x)
    (h' : Finds decode default none values y) : x = y := by
  match values with
  | [] => exact Option.some.inj (h.symm.trans h')
  | [v] =>
    rw [finds_singleton] at h h'
    exact Except.ok.inj (h.symm.trans h')
  | _ :: _ :: _ => exact absurd h not_finds_two

theorem Finds.perm (hp : values.Perm values') (h : Finds decode default none values x) :
    Finds decode default none values' x := by
  match values with
  | [] => exact hp.nil_eq ▸ h
  | [v] => exact hp.singleton_eq ▸ h
  | _ :: _ :: _ => exact absurd h not_finds_two

end Finds

section Decoding
variable {ms : List (String × Value)}

theorem findKind_eq_ok_iff {seen : Option Kind} {kind : Kind} :
    findKind seen ms = .ok kind ↔ Finds kindOf none seen (valuesOf "kind" ms) kind := by
  induction ms generalizing seen with
  | nil => cases seen <;> simp [findKind, valuesOf, Finds]
  | cons m ms ih =>
    obtain ⟨name, value⟩ := m
    by_cases hn : name = "kind"
    · subst hn
      cases seen with
      | none => simp [findKind, Finds, bind_eq_ok_iff, ih]
      | some kind => simp [findKind, Finds]
    · rw [valuesOf_cons_of_ne hn, ← ih]
      simp [findKind, hn]

theorem findParameters_eq_ok_iff {seen : Option Parameters} {p : Parameters} :
    findParameters seen ms = .ok p ↔
      Finds parametersOf (some {}) seen (valuesOf "parameters" ms) p := by
  induction ms generalizing seen with
  | nil => cases seen <;> simp [findParameters, valuesOf, Finds]
  | cons m ms ih =>
    obtain ⟨name, value⟩ := m
    by_cases hn : name = "parameters"
    · subst hn
      cases seen with
      | none => simp [findParameters, Finds, bind_eq_ok_iff, ih]
      | some p => simp [findParameters, Finds]
    · rw [valuesOf_cons_of_ne hn, ← ih]
      simp [findParameters, hn]

section Lists
variable {fields : List String} {seen children : List (String × List Block)}

/-- A list that was decoded is one that was found before. -/
theorem finds_cons_list {name : String} {value : Value} {blocks : List Block}
    (hs : seen.lookup name = none) (hb : blocksOf value = .ok blocks) (field : String)
    (x : List Block) :
    Finds blocksOf (some []) (seen.lookup field) (valuesOf field ((name, value) :: ms)) x ↔
      Finds blocksOf (some []) (List.lookup field ((name, blocks) :: seen)) (valuesOf field ms)
        x := by
  by_cases he : name = field
  · subst he
    rw [valuesOf_cons_self, hs, List.lookup_cons_self]
    simp [Finds, hb]
  · rw [valuesOf_cons_of_ne he, List.lookup_cons, beq_false_of_ne (Ne.symm he)]

/-- What stands under a name in which lists are kept is what was found there. -/
theorem finds_of_childrenOf {field : String} (h : childrenOf fields seen ms = .ok children)
    (hf : field ∈ fields) :
    Finds blocksOf (some []) (seen.lookup field) (valuesOf field ms)
      ((children.lookup field).getD []) := by
  induction ms generalizing seen with
  | nil =>
    rw [childrenOf] at h
    obtain rfl := Except.ok.inj h
    cases seen.lookup field <;> simp [valuesOf, Finds]
  | cons m ms ih =>
    obtain ⟨name, value⟩ := m
    rw [childrenOf] at h
    split at h
    next hn =>
      split at h
      next => cases h
      next hs =>
        obtain ⟨blocks, hb, h⟩ := bind_eq_ok_iff.1 h
        have hnone : seen.lookup name = none := Option.not_isSome_iff_eq_none.1 hs
        exact (finds_cons_list hnone hb field _).2 (ih h)
    next hn =>
      have he : name ≠ field := fun he => hn (he ▸ hf)
      rw [valuesOf_cons_of_ne he]
      exact ih h

/-- The lists of a block are found, in whatever order, if each of them is. -/
theorem exists_childrenOf
    (h : ∀ field ∈ fields, ∃ blocks,
      Finds blocksOf (some []) (seen.lookup field) (valuesOf field ms) blocks) :
    ∃ children, childrenOf fields seen ms = .ok children := by
  induction ms generalizing seen with
  | nil => exact ⟨seen, by rw [childrenOf]⟩
  | cons m ms ih =>
    obtain ⟨name, value⟩ := m
    rw [childrenOf]
    by_cases hn : name ∈ fields
    · obtain ⟨found, hfound⟩ := h name hn
      rw [valuesOf_cons_self] at hfound
      cases hs : seen.lookup name with
      | some blocks =>
        rw [hs] at hfound
        exact hfound.elim
      | none =>
        rw [hs] at hfound
        obtain ⟨blocks, hb, -⟩ := hfound
        rw [if_pos hn, if_neg (by simp), hb, ok_bind]
        apply ih
        intro field hf
        obtain ⟨other, ho⟩ := h field hf
        exact ⟨other, (finds_cons_list hs hb field other).1 ho⟩
    · rw [if_neg hn]
      apply ih
      intro field hf
      have he : name ≠ field := fun he => hn (he ▸ hf)
      obtain ⟨other, ho⟩ := h field hf
      rw [valuesOf_cons_of_ne he] at ho
      exact ⟨other, ho⟩

end Lists

end Decoding

section Blocks
variable {ms ms' : List (String × Value)} {block : Block}

/-- The lists of blocks that a block has, under the names of the members that keep them. -/
def Block.children : Block → List (String × List Block)
  | .ifThen _ body => [("body", body)]
  | .ifElse _ thenBranch elseBranch => [("then_branch", thenBranch), ("else_branch", elseBranch)]
  | .whileLoop _ body => [("body", body)]
  | _ => []

theorem children_names (block : Block) : block.children.map Prod.fst = block.kind.childFields := by
  cases block <;> rfl

theorem reserved_notMem_childFields (kind : Kind) :
    "kind" ∉ kind.childFields ∧ "parameters" ∉ kind.childFields := by
  cases kind <;> decide

def GivesKind (ms : List (String × Value)) (kind : Kind) : Prop :=
  Finds kindOf none none (valuesOf "kind" ms) kind

def GivesParameters (ms : List (String × Value)) (p : Parameters) : Prop :=
  Finds parametersOf (some {}) none (valuesOf "parameters" ms) p

def GivesList (ms : List (String × Value)) (field : String) (blocks : List Block) : Prop :=
  Finds blocksOf (some []) none (valuesOf field ms) blocks

/-- What the members of a block say, without regard to their order. -/
structure Describes (ms : List (String × Value)) (block : Block) : Prop where
  kind : GivesKind ms block.kind
  parameters : GivesParameters ms block.parameters
  lists : ∀ child ∈ block.children, GivesList ms child.1 child.2

private theorem kind_assemble (kind : Kind) (p : Parameters)
    (children : List (String × List Block)) :
    (assemble kind p children).kind = kind := by
  cases kind <;> rfl

private theorem parameters_assemble (kind : Kind) (p : Parameters)
    (children : List (String × List Block)) : (assemble kind p children).parameters = p := by
  cases kind <;> rfl

private theorem children_assemble (kind : Kind) (p : Parameters)
    (children : List (String × List Block)) :
    (assemble kind p children).children =
      kind.childFields.map fun field => (field, (children.lookup field).getD []) := by
  cases kind <;> rfl

private theorem assemble_of_lookup {children : List (String × List Block)}
    (h : ∀ child ∈ block.children, (children.lookup child.1).getD [] = child.2) :
    assemble block.kind block.parameters children = block := by
  cases block <;> simp_all [assemble, Block.children, Block.kind, Block.parameters]

theorem field_of_mem_children {child : String × List Block} (h : child ∈ block.children) :
    child.1 ∈ block.kind.childFields := by
  rw [← children_names]
  exact List.mem_map_of_mem h

theorem blockOf_object_iff : blockOf (.object ms) = .ok block ↔ Describes ms block := by
  rw [blockOf]
  constructor
  · intro h
    obtain ⟨p, hp, h⟩ := bind_eq_ok_iff.1 h
    rw [blockOfMembers] at h
    obtain ⟨kind, hk, h⟩ := bind_eq_ok_iff.1 h
    obtain ⟨children, hc, h⟩ := bind_eq_ok_iff.1 h
    obtain rfl : assemble kind p children = block := by simpa [pure, Except.pure] using h
    refine ⟨?_, ?_, ?_⟩
    · rw [kind_assemble]
      exact findKind_eq_ok_iff.1 hk
    · rw [parameters_assemble]
      exact findParameters_eq_ok_iff.1 hp
    · intro child hchild
      rw [children_assemble] at hchild
      obtain ⟨field, hf, rfl⟩ := List.mem_map.1 hchild
      exact finds_of_childrenOf hc hf
  · intro h
    have hp : findParameters none ms = .ok block.parameters :=
      findParameters_eq_ok_iff.2 h.parameters
    have hk : findKind none ms = .ok block.kind := findKind_eq_ok_iff.2 h.kind
    have hl : ∀ field ∈ block.kind.childFields, ∃ blocks, GivesList ms field blocks := by
      intro field hf
      rw [← children_names] at hf
      obtain ⟨child, hchild, rfl⟩ := List.mem_map.1 hf
      exact ⟨child.2, h.lists child hchild⟩
    obtain ⟨children, hc⟩ : ∃ children, childrenOf block.kind.childFields [] ms = .ok children :=
      exists_childrenOf hl
    have ha : assemble block.kind block.parameters children = block := by
      apply assemble_of_lookup
      intro child hchild
      exact finds_unique (finds_of_childrenOf hc (field_of_mem_children hchild))
        (h.lists child hchild)
    rw [hp, ok_bind, blockOfMembers, hk, ok_bind, hc, ok_bind, ha]
    rfl

/-- The members say the same of every field that a block has. -/
structure SameFields (ms ms' : List (String × Value)) : Prop where
  kind : ∀ kind, GivesKind ms kind ↔ GivesKind ms' kind
  parameters : ∀ p, GivesParameters ms p ↔ GivesParameters ms' p
  lists : ∀ kind, GivesKind ms kind → ∀ field ∈ kind.childFields,
    ∀ blocks, GivesList ms field blocks ↔ GivesList ms' field blocks

theorem SameFields.describes_iff (h : SameFields ms ms') (block : Block) :
    Describes ms block ↔ Describes ms' block := by
  constructor
  · intro d
    refine ⟨(h.kind _).1 d.kind, (h.parameters _).1 d.parameters, fun child hc => ?_⟩
    exact (h.lists _ d.kind _ (field_of_mem_children hc) _).1 (d.lists child hc)
  · intro d
    have hk := (h.kind _).2 d.kind
    refine ⟨hk, (h.parameters _).2 d.parameters, fun child hc => ?_⟩
    exact (h.lists _ hk _ (field_of_mem_children hc) _).2 (d.lists child hc)

theorem sameFields_of_perm (h : ms.Perm ms') : SameFields ms ms' :=
  have hv (name : String) := valuesOf_perm h name
  { kind _ := ⟨.perm (hv _), .perm (hv _).symm⟩
    parameters _ := ⟨.perm (hv _), .perm (hv _).symm⟩
    lists _ _ _ _ _ := ⟨.perm (hv _), .perm (hv _).symm⟩ }

end Blocks

end BlockTrace.Program
