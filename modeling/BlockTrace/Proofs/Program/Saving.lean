import BlockTrace.Program.Saved
import BlockTrace.Proofs.Json.Written
import BlockTrace.Proofs.Program.Loading

/-! A saved program is loaded again as it was, in whatever order its members were saved, as long as
its blocks do not nest deeper than JSON may. -/
namespace BlockTrace.Program
open Json (NumberFree Value)

namespace Block

mutual

/-- How many levels of blocks stand below a block. -/
def depth : Block → Nat
  | ifThen _ body => levels body
  | ifElse _ thenBranch elseBranch => max (levels thenBranch) (levels elseBranch)
  | whileLoop _ body => levels body
  | declareVars _ => 0
  | assign _ => 0
  | arithmetic _ => 0
  | declareArray _ => 0
  | arrayAccess _ => 0

/-- How many levels of blocks a list has. -/
def levels : List Block → Nat
  | [] => 0
  | block :: rest => max (depth block + 1) (levels rest)

end

end Block

mutual

/-- The object has the kind of the block, its parameters and its lists, all in any order. -/
inductive Saves : Block → Value → Prop
  | block {block : Block} {entries : List (String × String)}
      {lists members : List (String × Value)} :
      entries.Perm block.parameters.toList → SavesLists block.children lists →
      members.Perm (("kind", .string block.kind.name) ::
        ("parameters", .object (entries.map fun (name, text) => (name, .string text))) :: lists) →
      Saves block (.object members)

inductive SavesAll : List Block → List Value → Prop
  | nil : SavesAll [] []
  | cons {block : Block} {v : Value} {blocks : List Block} {items : List Value} :
      Saves block v → SavesAll blocks items → SavesAll (block :: blocks) (v :: items)

inductive SavesLists : List (String × List Block) → List (String × Value) → Prop
  | nil : SavesLists [] []
  | cons {name : String} {blocks : List Block} {items : List Value}
      {children : List (String × List Block)} {lists : List (String × Value)} :
      SavesAll blocks items → SavesLists children lists →
      SavesLists ((name, blocks) :: children) ((name, .array items) :: lists)

end

section Saved

mutual

private theorem saves_toJson : (block : Block) → Saves block block.toJson
  | .declareVars _ | .assign _ | .arithmetic _ | .declareArray _ | .arrayAccess _ => by
    rw [Block.toJson]
    exact .block (.refl _) .nil (.refl _)
  | .ifThen p body => by
    rw [Block.toJson]
    exact .block (.refl _) (.cons (savesAll_allToJson body) .nil) (.refl _)
  | .ifElse p thenBranch elseBranch => by
    rw [Block.toJson]
    exact .block (.refl _)
      (.cons (savesAll_allToJson thenBranch) (.cons (savesAll_allToJson elseBranch) .nil)) (.refl _)
  | .whileLoop p body => by
    rw [Block.toJson]
    exact .block (.refl _) (.cons (savesAll_allToJson body) .nil) (.refl _)

theorem savesAll_allToJson : (blocks : List Block) → SavesAll blocks (Block.allToJson blocks)
  | [] => by
    rw [Block.allToJson]
    exact .nil
  | block :: blocks => by
    rw [Block.allToJson]
    exact .cons (saves_toJson block) (savesAll_allToJson blocks)

end

end Saved

section Depth

private theorem levels_le_depth {block : Block} {child : String × List Block}
    (h : child ∈ block.children) :
    Block.levels child.2 ≤ block.depth := by
  cases block <;> simp only [Block.children, List.mem_cons, List.not_mem_nil, or_false] at h
  case ifThen p body =>
    subst h
    rw [Block.depth]
  case ifElse p thenBranch elseBranch =>
    rw [Block.depth]
    rcases h with rfl | rfl
    · exact Nat.le_max_left _ _
    · exact Nat.le_max_right _ _
  case whileLoop p body =>
    subst h
    rw [Block.depth]

mutual

private theorem numberFree_of_saves {block : Block} {v : Value} {n : Nat}
    (hn : 2 * block.depth + 2 ≤ n) :
    Saves block v → NumberFree n v
  | @Saves.block _ entries lists _ he hl hm => by
    -- The object of the block is one level, its parameters or the array of a list the next.
    obtain ⟨k, rfl⟩ : ∃ k, n = k + 2 := ⟨n - 2, by omega⟩
    refine .object fun m hmem => ?_
    have hlists : ∀ m ∈ lists, NumberFree (k + 1) m.2 := by
      refine numberFree_of_savesLists (fun c hc => ?_) hl
      have := levels_le_depth hc
      omega
    have hmem := hm.mem_iff.1 hmem
    rw [List.mem_cons, List.mem_cons] at hmem
    rcases hmem with rfl | rfl | hmem
    · exact .string _
    · refine .object fun m hmem => ?_
      obtain ⟨e, -, rfl⟩ := List.mem_map.1 hmem
      exact .string _
    · exact hlists m hmem

theorem numberFree_of_savesAll {blocks : List Block} {items : List Value} {n : Nat}
    (hn : 2 * Block.levels blocks ≤ n) : SavesAll blocks items → ∀ v ∈ items, NumberFree n v
  | .nil => by simp
  | .cons hb hs => by
    rw [Block.levels] at hn
    rw [List.forall_mem_cons]
    exact ⟨numberFree_of_saves (by omega) hb, numberFree_of_savesAll (by omega) hs⟩

theorem numberFree_of_savesLists {children : List (String × List Block)}
    {lists : List (String × Value)} {n : Nat} (hn : ∀ c ∈ children, 2 * Block.levels c.2 + 1 ≤ n) :
    SavesLists children lists → ∀ m ∈ lists, NumberFree n m.2
  | .nil => by simp
  | .cons ha hs => by
    rw [List.forall_mem_cons] at hn ⊢
    obtain ⟨hb, hc⟩ := hn
    obtain ⟨k, rfl⟩ : ∃ k, n = k + 1 := ⟨n - 1, by omega⟩
    have hk := Nat.le_of_succ_le_succ hb
    exact ⟨.array (numberFree_of_savesAll hk ha), numberFree_of_savesLists hc hs⟩

end

end Depth

section Decoding

/-- Entering texts with different names gives a map that has just these, besides what it had. -/
theorem getElem?_foldl_insert {entries : List (String × String)}
    (hd : (entries.map Prod.fst).Nodup) (map : Std.ExtTreeMap String String) (name text : String) :
    (entries.foldl (fun map e => map.insert e.1 e.2) map)[name]? = some text ↔
      (name, text) ∈ entries ∨ (name ∉ entries.map Prod.fst ∧ map[name]? = some text) := by
  induction entries generalizing map with
  | nil => simp
  | cons e entries ih =>
    obtain ⟨key, value⟩ := e
    rw [List.map_cons, List.nodup_cons] at hd
    rw [List.foldl_cons, ih hd.2, Std.ExtTreeMap.getElem?_insert]
    by_cases hk : key = name
    · subst hk
      have hn : (key, text) ∉ entries := fun h => hd.1 (List.mem_map.2 ⟨_, h, rfl⟩)
      simp [hd.1, hn, eq_comm]
    · have hc : compare key name ≠ .eq := fun h => hk (Std.LawfulEqCmp.eq_of_compare h)
      simp [hc, Ne.symm hk]

private theorem addParameters_strings (p : Parameters) (entries : List (String × String)) :
    addParameters p (entries.map fun (name, text) => (name, .string text)) =
      .ok ⟨entries.foldl (fun map e => map.insert e.1 e.2) p.entries⟩ := by
  induction entries generalizing p with
  | nil => rfl
  | cons e entries ih =>
    rw [List.map_cons, addParameters, stringOf, ok_bind]
    exact ih _

private theorem parametersOf_entries {p : Parameters} {entries : List (String × String)}
    (h : entries.Perm p.toList) :
    parametersOf (.object (entries.map fun (name, text) => (name, .string text))) = .ok p := by
  have hd : (entries.map Prod.fst).Nodup := by
    rw [(h.map Prod.fst).nodup_iff, Parameters.toList, Std.ExtTreeMap.map_fst_toList_eq_keys]
    exact Std.ExtTreeMap.nodup_keys
  rw [parametersOf, addParameters_strings]
  congr 1
  apply Parameters.ext
  apply Std.ExtTreeMap.ext_getElem?
  intro name
  apply Option.ext
  intro text
  rw [getElem?_foldl_insert hd, h.mem_iff, Parameters.toList,
    Std.ExtTreeMap.mem_toList_iff_getElem?_eq_some]
  simp

private theorem ofName?_name (kind : Kind) : Kind.ofName? kind.name = some kind := by
  cases kind <;> decide

theorem kindOf_name (kind : Kind) : kindOf (.string kind.name) = .ok kind := by
  simp [kindOf, ofName?_name]

private theorem nodup_childFields (kind : Kind) : kind.childFields.Nodup := by
  cases kind <;> decide

/-- The member has a list of blocks, and its name. -/
def Holds (member : String × Value) (child : String × List Block) : Prop :=
  member.1 = child.1 ∧ blocksOf member.2 = .ok child.2

theorem names_of_holds {members : List (String × Value)} {children : List (String × List Block)}
    (h : List.Forall₂ Holds members children) :
    members.map Prod.fst = children.map Prod.fst := by
  induction h with
  | nil => rfl
  | cons hm _ ih => rw [List.map_cons, List.map_cons, hm.1, ih]

/-- Under the name of a list stands that list, as no two have the same name. -/
theorem finds_of_holds {members : List (String × Value)} {children : List (String × List Block)}
    (h : List.Forall₂ Holds members children) (hd : (children.map Prod.fst).Nodup) :
    ∀ child ∈ children, GivesList members child.1 child.2 := by
  induction h with
  | nil => nofun
  | @cons m c members children hm hs ih =>
    obtain ⟨name, value⟩ := m
    obtain ⟨field, blocks⟩ := c
    obtain ⟨rfl, hb⟩ := hm
    rw [List.map_cons, List.nodup_cons] at hd
    rw [List.forall_mem_cons]
    constructor
    · have hn : valuesOf name members = [] := valuesOf_eq_nil (names_of_holds hs ▸ hd.1)
      rw [GivesList, valuesOf_cons_self, hn]
      exact finds_singleton.2 hb
    · intro child hc
      have hne : name ≠ child.1 := fun he => hd.1 (List.mem_map.2 ⟨child, hc, he.symm⟩)
      rw [GivesList, valuesOf_cons_of_ne hne]
      exact ih hd.2 child hc

/-- What a block is decoded from, whatever the order of its members. -/
theorem blockOf_members {block : Block} {entries : List (String × String)}
    {lists members : List (String × Value)} (he : entries.Perm block.parameters.toList)
    (hl : List.Forall₂ Holds lists block.children)
    (hm : members.Perm (("kind", .string block.kind.name) ::
      ("parameters", .object (entries.map fun (name, text) => (name, .string text))) :: lists)) :
    blockOf (.object members) = .ok block := by
  have hnames : lists.map Prod.fst = block.kind.childFields :=
    (names_of_holds hl).trans (children_names block)
  obtain ⟨hkind, hparameters⟩ := hnames ▸ reserved_notMem_childFields block.kind
  rw [blockOf_object_iff, (sameFields_of_perm hm).describes_iff]
  refine ⟨?_, ?_, ?_⟩
  · rw [GivesKind, valuesOf_cons_self, valuesOf_cons_of_ne (by decide), valuesOf_eq_nil hkind]
    exact finds_singleton.2 (kindOf_name block.kind)
  · rw [GivesParameters, valuesOf_cons_of_ne (by decide), valuesOf_cons_self,
      valuesOf_eq_nil hparameters]
    exact finds_singleton.2 (parametersOf_entries he)
  · intro child hc
    have hfield : child.1 ∈ lists.map Prod.fst := hnames ▸ field_of_mem_children hc
    have hk : "kind" ≠ child.1 := fun h => hkind (h ▸ hfield)
    have hp : "parameters" ≠ child.1 := fun h => hparameters (h ▸ hfield)
    rw [GivesList, valuesOf_cons_of_ne hk, valuesOf_cons_of_ne hp]
    exact finds_of_holds hl (children_names block ▸ nodup_childFields block.kind) child hc

mutual

private theorem blockOf_of_saves {block : Block} {v : Value} : Saves block v → blockOf v = .ok block
  | .block he hl hm => blockOf_members he (holds_of_savesLists hl) hm

theorem blocksOfItems_of_savesAll {blocks : List Block} {items : List Value} :
    SavesAll blocks items → blocksOfItems items = .ok blocks
  | .nil => by rw [blocksOfItems]
  | .cons hb hs => by
    rw [blocksOfItems, blockOf_of_saves hb, ok_bind, blocksOfItems_of_savesAll hs]
    rfl

theorem holds_of_savesLists {children : List (String × List Block)}
    {lists : List (String × Value)} :
    SavesLists children lists → List.Forall₂ Holds lists children
  | .nil => .nil
  | .cons ha hs =>
    .cons ⟨rfl, by rw [blocksOf, blocksOfItems_of_savesAll ha]⟩ (holds_of_savesLists hs)

end

end Decoding

private theorem levels_le {blocks : List Block} {n : Nat} (h : ∀ block ∈ blocks, block.depth ≤ n) :
    Block.levels blocks ≤ n + 1 := by
  induction blocks with
  | nil =>
    rw [Block.levels]
    exact Nat.zero_le _
  | cons block blocks ih =>
    rw [List.forall_mem_cons] at h
    rw [Block.levels]
    exact Nat.max_le.2 ⟨Nat.succ_le_succ h.1, ih h.2⟩

/-- A block may stand in 62 others: the outermost list and 63 blocks, each with its parameters or
its own lists, make 127 arrays and objects. -/
theorem document_of_savesAll {program : List Block} {items : List Value}
    (h : ∀ block ∈ program, block.depth ≤ 62) (hs : SavesAll program items) :
    Json.Document (Json.write (.array items)) (.array items) := by
  have hl := levels_le h
  have hf : ∀ v ∈ items, NumberFree 126 v := numberFree_of_savesAll (by omega) hs
  exact Json.document_write (.array hf)

theorem load_of_savesAll {program : List Block} {items : List Value} {text : List Char}
    (hs : SavesAll program items) (ht : Json.Document text (.array items)) :
    load text = .ok program := by
  rw [load_of_document ht, blocksOf, blocksOfItems_of_savesAll hs]
  rfl

/-- A program that was saved is loaded as it was, and so is one whose members were saved in another
order and with blanks or escapes of another choice. -/
theorem load_save_of_depth_le (program : List Block) (h : ∀ block ∈ program, block.depth ≤ 62) :
    load (save program).toList = .ok program ∧
      ∀ items, SavesAll program items →
        Json.Document (Json.write (.array items)) (.array items) ∧
          ∀ text, Json.Document text (.array items) → load text = .ok program := by
  constructor
  · have hs := savesAll_allToJson program
    rw [save, String.toList_ofList]
    exact load_of_savesAll hs (document_of_savesAll h hs)
  · intro items hs
    exact ⟨document_of_savesAll h hs, fun text ht => load_of_savesAll hs ht⟩

/-- A block inside `n` loops. -/
def Block.inLoops (n : Nat) (condition : String) (block : Block) : Block :=
  Nat.iterate (fun block => loop condition [block]) n block

private theorem depth_inLoops (n : Nat) (condition : String) (block : Block) :
    (block.inLoops n condition).depth = n + block.depth := by
  induction n generalizing block with
  | zero => simp [Block.inLoops]
  | succ n ih =>
    have hd : (Block.loop condition [block]).depth = block.depth + 1 := by
      simp [Block.loop, Block.depth, Block.levels]
    calc (block.inLoops (n + 1) condition).depth
        = ((Block.loop condition [block]).inLoops n condition).depth := rfl
      _ = n + (Block.loop condition [block]).depth := ih _
      _ = n + 1 + block.depth := by omega

/-- Blocks may nest exactly as deep as JSON allows, and texts may hold any character. Members and
parameters may stand in another order than the one in which they are saved here. -/
theorem load_save_62_loops :
    ((Block.evaluate "\x01é").inLoops 62 "\"\\\n").depth = 62 ∧
      load (save [(Block.evaluate "\x01é").inLoops 62 "\"\\\n"]).toList =
        .ok [(Block.evaluate "\x01é").inLoops 62 "\"\\\n"] ∧
      load ("[\x7b\"parameters\": \x7b\"varName\":\"x\",\"expression\":\"1\"\x7d," ++
        "\"kind\":\"\\u0041ssign\"\x7d]").toList = .ok [.assignTo "x" "1"] := by
  have hd : ((Block.evaluate "\x01é").inLoops 62 "\"\\\n").depth = 62 := by
    rw [depth_inLoops, Block.evaluate, Block.depth]
  refine ⟨hd, ?_, ?_⟩
  · refine (load_save_of_depth_le _ ?_).1
    intro block hb
    rw [List.mem_singleton.1 hb, hd]
  · have he : List.Perm [("varName", "x"), ("expression", "1")]
        (Block.assignTo "x" "1").parameters.toList := by decide
    have hs : SavesAll [.assignTo "x" "1"] [.object
        [("parameters", .object [("varName", .string "x"), ("expression", .string "1")]),
          ("kind", .string "Assign")]] :=
      .cons (.block he .nil (.swap _ _ _)) .nil
    have hd : ∀ block ∈ [Block.assignTo "x" "1"], block.depth ≤ 62 := by
      intro block hb
      rw [List.mem_singleton.1 hb, Block.assignTo, Block.depth]
      exact Nat.zero_le _
    refine ((load_save_of_depth_le _ hd).2 _ hs).2 _ (Json.parse_eq_ok_iff.1 ?_)
    cbv

end BlockTrace.Program
