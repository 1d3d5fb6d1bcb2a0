import BlockTrace.Proofs.Program.Saving

/-! A program that was loaded can be saved. The blocks of a text nest at most half as deep as its
arrays and objects do, and the room that is left is just what the parameters and lists need that
are saved even if the text left them out. -/
namespace BlockTrace.Json

/-- At most `depth` arrays and objects stand inside one another. -/
inductive Nests : Nat → Value → Prop
  | scalar {depth : Nat} {v : Value} :
      (∀ items, v ≠ .array items) → (∀ members, v ≠ .object members) → Nests depth v
  | array {depth : Nat} {items : List Value} : (∀ v ∈ items, Nests depth v) →
      Nests (depth + 1) (.array items)
  | object {depth : Nat} {members : List (String × Value)} : (∀ m ∈ members, Nests depth m.2) →
      Nests (depth + 1) (.object members)

section Texts
variable {text : List Char}

theorem nests_of_isScalar {depth : Nat} {v : Value} (h : IsScalar text v) : Nests depth v := by
  cases h with
  | number h =>
    obtain ⟨t, -, -, hv, -⟩ := h
    obtain ⟨n, rfl⟩ | ⟨x, rfl⟩ := integer_or_double hv
    · exact .scalar (by simp) (by simp)
    · exact .scalar (by simp) (by simp)
  | null | yes | no | string => exact .scalar (by simp) (by simp)

private theorem nests_of_isValue {depth : Nat} {v : Value} (h : IsValue depth text v) :
    Nests depth v := by
  induction depth generalizing text v with
  | zero =>
    obtain ⟨blanks, core, -, hs, -⟩ := h
    exact nests_of_isScalar hs
  | succ depth ih =>
    obtain ⟨blanks, core, -, hs, -⟩ := h
    cases hs with
    | scalar hs => exact nests_of_isScalar hs
    | array he =>
      refine .array fun v hv => ?_
      obtain ⟨piece, hp⟩ := he.exists_text v hv
      exact ih hp
    | object he =>
      refine .object fun m hm => ?_
      obtain ⟨piece, name, given, -, ⟨blanks, value, -, hp, -⟩, -⟩ := he.exists_text m hm
      exact ih hp

private theorem Document.nests {v : Value} (h : Document text v) : Nests nestingLimit v := by
  obtain ⟨core, blanks, hv, -, -⟩ := h
  exact nests_of_isValue hv

end Texts

end BlockTrace.Json

namespace BlockTrace.Program
open Json (Nests NumberFree Value)

section Levels
variable {n : Nat}

private theorem levels_of_blocksOfItems {items : List Value} {blocks : List Block}
    (h : ∀ v ∈ items, ∀ block, blockOf v = .ok block → 2 * block.depth + 1 ≤ n)
    (hb : blocksOfItems items = .ok blocks) : 2 * Block.levels blocks ≤ n + 1 := by
  induction items generalizing blocks with
  | nil =>
    rw [blocksOfItems] at hb
    cases hb
    rw [Block.levels]
    omega
  | cons v items ih =>
    rw [List.forall_mem_cons] at h
    rw [blocksOfItems] at hb
    obtain ⟨block, hv, hb⟩ := bind_eq_ok_iff.1 hb
    obtain ⟨rest, hr, hb⟩ := bind_eq_ok_iff.1 hb
    cases hb
    have hd := h.1 block hv
    have hl := ih h.2 hr
    rw [Block.levels]
    omega

/-- The lists that are found come from members. -/
theorem levels_of_childrenOf {fields : List String} {seen children : List (String × List Block)}
    {members : List (String × Value)}
    (h : ∀ m ∈ members, ∀ blocks, blocksOf m.2 = .ok blocks → 2 * Block.levels blocks ≤ n)
    (hs : ∀ c ∈ seen, 2 * Block.levels c.2 ≤ n)
    (hc : childrenOf fields seen members = .ok children) :
    ∀ c ∈ children, 2 * Block.levels c.2 ≤ n := by
  induction members generalizing seen with
  | nil =>
    rw [childrenOf] at hc
    cases hc
    exact hs
  | cons m members ih =>
    obtain ⟨name, value⟩ := m
    rw [List.forall_mem_cons] at h
    rw [childrenOf] at hc
    split at hc
    · split at hc
      · cases hc
      · obtain ⟨blocks, hb, hc⟩ := bind_eq_ok_iff.1 hc
        exact ih h.2 (List.forall_mem_cons.2 ⟨h.1 blocks hb, hs⟩) hc
    · exact ih h.2 hs hc

private theorem depth_assemble (kind : Kind) (p : Parameters)
    {children : List (String × List Block)}
    (h : ∀ c ∈ children, 2 * Block.levels c.2 ≤ n) : 2 * (assemble kind p children).depth ≤ n := by
  have hl : ∀ field, 2 * Block.levels ((children.lookup field).getD []) ≤ n := by
    intro field
    cases hf : children.lookup field with
    | none => simp [Block.levels]
    | some blocks =>
      obtain ⟨before, after, rfl, -⟩ := List.lookup_eq_some_iff.1 hf
      exact h (field, blocks) (by simp)
  cases kind <;> simp only [assemble, Block.depth]
  case ifThen => exact hl "body"
  case ifElse =>
    have ht := hl "then_branch"
    have he := hl "else_branch"
    omega
  case whileLoop => exact hl "body"
  all_goals omega

/-- Each level of blocks takes two of a value: the object of a block and the array it stands in. -/
theorem levels_of_nests {v : Value} (h : Nests n v) :
    (∀ blocks, blocksOf v = .ok blocks → 2 * Block.levels blocks ≤ n) ∧
      ∀ block, blockOf v = .ok block → 2 * block.depth + 1 ≤ n := by
  induction h with
  | scalar ha ho =>
    constructor
    · intro blocks hb
      rw [blocksOf_of_ne ha] at hb
      cases hb
    · intro block hb
      rw [blockOf_of_ne ho] at hb
      cases hb
  | array _ ih =>
    constructor
    · intro blocks hb
      rw [blocksOf] at hb
      exact levels_of_blocksOfItems (fun v hv => (ih v hv).2) hb
    · intro block hb
      rw [blockOf_of_ne (by simp)] at hb
      cases hb
  | object _ ih =>
    constructor
    · intro blocks hb
      rw [blocksOf_of_ne (by simp)] at hb
      cases hb
    · intro block hb
      rw [blockOf] at hb
      obtain ⟨p, -, hb⟩ := bind_eq_ok_iff.1 hb
      rw [blockOfMembers] at hb
      obtain ⟨kind, -, hb⟩ := bind_eq_ok_iff.1 hb
      obtain ⟨children, hc, hb⟩ := bind_eq_ok_iff.1 hb
      cases hb
      have hl := levels_of_childrenOf (fun m hm => (ih m hm).1) (by simp) hc
      exact Nat.succ_le_succ (depth_assemble kind p hl)

private theorem depth_le_levels {blocks : List Block} :
    ∀ block ∈ blocks, block.depth + 1 ≤ Block.levels blocks := by
  induction blocks with
  | nil => simp
  | cons block blocks ih =>
    rw [Block.levels, List.forall_mem_cons]
    refine ⟨Nat.le_max_left _ _, fun other ho => ?_⟩
    exact (ih other ho).trans (Nat.le_max_right _ _)

private theorem depth_le_of_load {text : List Char} {program : List Block}
    (h : load text = .ok program) :
    ∀ block ∈ program, block.depth ≤ 62 := by
  obtain ⟨v, hv⟩ := document_of_load h
  rw [load_of_document hv, mapError_eq_ok_iff] at h
  have hl : 2 * Block.levels program ≤ 127 := (levels_of_nests hv.nests).1 program h
  intro block hb
  have hd := depth_le_levels block hb
  omega

end Levels

/-- What was loaded is loaded again after it was saved, in whatever order its members are saved,
even though saving writes parameters and lists that the text did not have: no block stands in more
than 62 others, so there is always room for them. -/
theorem load_resaved {text : List Char} {program : List Block} (h : load text = .ok program) :
    (∀ block ∈ program, block.depth ≤ 62) ∧ load (save program).toList = .ok program ∧
      ∀ items, SavesAll program items →
        Json.Document (Json.write (.array items)) (.array items) ∧
          ∀ text, Json.Document text (.array items) → load text = .ok program := by
  have hd := depth_le_of_load h
  refine ⟨hd, ?_, fun items hs => ?_⟩
  · have hs := savesAll_allToJson program
    rw [save, String.toList_ofList]
    exact load_of_savesAll hs (document_of_savesAll hd hs)
  · exact ⟨document_of_savesAll hd hs, fun text ht => load_of_savesAll hs ht⟩

/-- A loop inside `n` others, without all that may be left out. -/
def bareLoops : Nat → Value
  | 0 => .object [("kind", .string "While")]
  | n + 1 => .object [("body", .array [bareLoops n]), ("kind", .string "While")]

def Block.emptyLoops : Nat → Block
  | 0 => .whileLoop {} []
  | n + 1 => .whileLoop {} [emptyLoops n]

private theorem numberFree_bareLoops (n : Nat) : NumberFree (2 * n + 2) (bareLoops n) := by
  induction n with
  | zero => exact .object (by simp [NumberFree.string])
  | succ n ih =>
    refine .object (List.forall_mem_cons.2 ⟨.array ?_, by simp [NumberFree.string]⟩)
    intro v hv
    rw [List.mem_singleton.1 hv]
    exact ih

private theorem blockOf_bareLoops (n : Nat) : blockOf (bareLoops n) = .ok (.emptyLoops n) := by
  induction n with
  | zero => cbv
  | succ n ih =>
    have hb : blocksOf (.array [bareLoops n]) = .ok [.emptyLoops n] := by
      rw [blocksOf, blocksOfItems, ih, ok_bind, blocksOfItems]
      rfl
    have hp : findParameters none [("body", .array [bareLoops n]), ("kind", .string "While")] =
        .ok {} := rfl
    have hk : findKind none [("body", .array [bareLoops n]), ("kind", .string "While")] =
        .ok .whileLoop := rfl
    have hc : childrenOf Kind.whileLoop.childFields []
        [("body", .array [bareLoops n]), ("kind", .string "While")] =
        .ok [("body", [.emptyLoops n])] := by
      simp [childrenOf, Kind.childFields, hb, ok_bind]
    rw [bareLoops, blockOf, hp, ok_bind, blockOfMembers, hk, ok_bind, hc]
    rfl

/-- A text of 63 loops has no room for another block in the innermost one, and still it can be
loaded, saved with all that it left out, and loaded again. So can one with members that do not count
and with a kind that is given by its index. -/
theorem load_resaved_loops :
    load (Json.write (.array [bareLoops 62])) = .ok [.emptyLoops 62] ∧
      load (save [.emptyLoops 62]).toList = .ok [.emptyLoops 62] ∧
      load ("[\x7b\"body\":[\x7b\"kind\":0\x7d],\"parameters\":" ++
        "\x7b\"a\":\"1\",\"a\":\"2\"\x7d,\"x\":7,\"kind\":3\x7d]").toList =
        .ok [.ifThen (.ofList [("a", "2")]) [.declareVars {}]] ∧
      load (save [.ifThen (.ofList [("a", "2")]) [.declareVars {}]]).toList =
        .ok [.ifThen (.ofList [("a", "2")]) [.declareVars {}]] := by
  have hl : load (Json.write (.array [bareLoops 62])) = .ok [.emptyLoops 62] := by
    have hf : ∀ v ∈ [bareLoops 62], NumberFree 126 v := by
      intro v hv
      rw [List.mem_singleton.1 hv]
      exact numberFree_bareLoops 62
    rw [load_of_document (Json.document_write (.array hf)), blocksOf, blocksOfItems,
      blockOf_bareLoops, ok_bind, blocksOfItems]
    rfl
  have hw : load ("[\x7b\"body\":[\x7b\"kind\":0\x7d],\"parameters\":" ++
      "\x7b\"a\":\"1\",\"a\":\"2\"\x7d,\"x\":7,\"kind\":3\x7d]").toList =
      .ok [.ifThen (.ofList [("a", "2")]) [.declareVars {}]] := by
    cbv
  exact ⟨hl, (load_resaved hl).2.1, hw, (load_resaved hw).2.1⟩

end BlockTrace.Program
