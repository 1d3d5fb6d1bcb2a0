import BlockTrace.Proofs.Program.Saving
import Mathlib

/-! The spelling of a program does not matter. A block can be written in many ways: its members in
any order, with members that it has no use for, without members that are empty, and with its kind
given by name or by index. All of these are decoded to the same block, as long as what is added has
a value. -/
namespace BlockTrace.Program
open Json (IsText Letter NumberText Raw Value letters string?)

/-- The place of a kind in the order of the kinds. -/
def Kind.index : Kind → Nat
  | declareVars => 0
  | assign => 1
  | arithmetic => 2
  | ifThen => 3
  | ifElse => 4
  | whileLoop => 5
  | declareArray => 6
  | arrayAccess => 7

def Kind.indexText (kind : Kind) : NumberText :=
  ⟨false, Nat.toDigits 10 kind.index, none, none⟩

/-- What stands under a name. -/
def rawsOf (name : String) (ms : List (List Letter × Raw)) : List Raw :=
  (ms.filter fun m => m.1 = letters name).map Prod.snd

/-- One member says which kind the block is of. -/
def IsOfKind (ms : List (List Letter × Raw)) (kind : Kind) : Prop :=
  ∃ r v, rawsOf "kind" ms = [r] ∧ r.value? = some v ∧ kindOf v = .ok kind

/-- A change of the members of a block that leaves the block as it is. A member is changed or added
in front, from where a change of the order takes it to any other place. Which members may be added
without a use for them is up to `admits`. -/
inductive Edit (admits : List Letter → Raw → Prop) :
    List (List Letter × Raw) → List (List Letter × Raw) → Prop
  | reorder {ms ms' : List (List Letter × Raw)} : ms.Perm ms' → Edit admits ms ms'
  -- Parameters of different names may stand in any order.
  | reorderParameters {entries entries' ms : List (List Letter × Raw)} :
      (entries.map Prod.fst).Nodup → entries.Perm entries' →
      Edit admits ((letters "parameters", .object entries) :: ms)
        ((letters "parameters", .object entries') :: ms)
  -- A member that blocks of the kind have no use for may be added.
  | addUnused {kind : Kind} {name : List Letter} {r : Raw} {ms : List (List Letter × Raw)} :
      IsOfKind ms kind → name ∉ ("kind" :: "parameters" :: kind.childFields).map letters →
      admits name r → Edit admits ms ((name, r) :: ms)
  | addParameters {ms : List (List Letter × Raw)} :
      letters "parameters" ∉ ms.map Prod.fst →
      Edit admits ms ((letters "parameters", .object []) :: ms)
  | addList {kind : Kind} {field : String} {ms : List (List Letter × Raw)} :
      IsOfKind ms kind → field ∈ kind.childFields → letters field ∉ ms.map Prod.fst →
      Edit admits ms ((letters field, .array []) :: ms)
  | useIndex {kind : Kind} {ms : List (List Letter × Raw)} :
      Edit admits ((letters "kind", .string (letters kind.name)) :: ms)
        ((letters "kind", .number kind.indexText) :: ms)

mutual

/-- One edit, of the block itself or of a block inside it. -/
inductive Respells (admits : List Letter → Raw → Prop) : Raw → Raw → Prop
  | edit {ms ms' : List (List Letter × Raw)} :
      Edit admits ms ms' → Respells admits (.object ms) (.object ms')
  | inside {name : List Letter} {items items' : List Raw} {ms : List (List Letter × Raw)} :
      RespellsOne admits items items' →
      Respells admits (.object ((name, .array items) :: ms)) (.object ((name, .array items') :: ms))

/-- One edit of one of the blocks, or inside it. -/
inductive RespellsOne (admits : List Letter → Raw → Prop) : List Raw → List Raw → Prop
  | head {r r' : Raw} {rest : List Raw} :
      Respells admits r r' → RespellsOne admits (r :: rest) (r' :: rest)
  | tail {r : Raw} {items items' : List Raw} :
      RespellsOne admits items items' → RespellsOne admits (r :: items) (r :: items')

end

/-- The lists are spelled alike up to edits, made or taken back in any number and order. -/
def SpelledAlike (admits : List Letter → Raw → Prop) : List Raw → List Raw → Prop :=
  Relation.EqvGen (RespellsOne admits)

/-- A member that has a value: every number in it has one, and in it and its name no half of a pair
of surrogates stands alone. -/
def Readable (name : List Letter) (r : Raw) : Prop :=
  Json.Whole name ∧ r.Paired ∧ r.Converts

section Edits
variable {ms ms' : List (String × Value)} {name : String} {v v' : Value}

/-- One value may stand for another if each of them is decoded as the other is. -/
theorem finds_replace {α : Type} {decode : Value → Except ShapeFault α} {default : Option α}
    (field : String) (h : name = field → ∀ x, decode v = .ok x ↔ decode v' = .ok x) (x : α) :
    Finds decode default none (valuesOf field ((name, v) :: ms)) x ↔
      Finds decode default none (valuesOf field ((name, v') :: ms)) x := by
  by_cases hn : name = field
  · subst hn
    simp only [valuesOf_cons_self, Finds, h rfl]
  · rw [valuesOf_cons_of_ne hn, valuesOf_cons_of_ne hn]

theorem sameFields_replace
    (hk : name = "kind" → ∀ kind, kindOf v = .ok kind ↔ kindOf v' = .ok kind)
    (hp : name = "parameters" → ∀ p, parametersOf v = .ok p ↔ parametersOf v' = .ok p)
    (hl : ∀ blocks, blocksOf v = .ok blocks ↔ blocksOf v' = .ok blocks) :
    SameFields ((name, v) :: ms) ((name, v') :: ms) where
  kind := finds_replace "kind" hk
  parameters := finds_replace "parameters" hp
  lists _ _ field _ := finds_replace field fun _ => hl

private theorem sameFields_addUnused {kind : Kind} (hk : GivesKind ms kind)
    (hn : name ∉ "kind" :: "parameters" :: kind.childFields) :
    SameFields ms ((name, v) :: ms) := by
  simp only [List.mem_cons, not_or] at hn
  obtain ⟨hkind, hparameters, hlists⟩ := hn
  refine ⟨fun _ => ?_, fun _ => ?_, ?_⟩
  · rw [GivesKind, GivesKind, valuesOf_cons_of_ne hkind]
  · rw [GivesParameters, GivesParameters, valuesOf_cons_of_ne hparameters]
  · intro other ho field hf blocks
    obtain rfl := finds_unique hk ho
    have he : name ≠ field := fun he => hlists (he ▸ hf)
    rw [GivesList, GivesList, valuesOf_cons_of_ne he]

/-- A member that is missing may be added if its value decodes to what the member is without it. -/
theorem finds_add {α : Type} {decode : Value → Except ShapeFault α} {default : α}
    (hn : name ∉ ms.map Prod.fst) (hv : decode v = .ok default) (x : α) :
    Finds decode (some default) none (valuesOf name ms) x ↔
      Finds decode (some default) none (valuesOf name ((name, v) :: ms)) x := by
  rw [valuesOf_cons_self, valuesOf_eq_nil hn, finds_singleton, hv]
  simp [Finds]

private theorem sameFields_addParameters (hn : "parameters" ∉ ms.map Prod.fst) :
    SameFields ms (("parameters", .object []) :: ms) := by
  refine ⟨fun _ => ?_, finds_add hn rfl, ?_⟩
  · rw [GivesKind, GivesKind, valuesOf_cons_of_ne (by decide)]
  · intro kind _ field hf blocks
    have he : "parameters" ≠ field := fun he => (reserved_notMem_childFields kind).2 (he ▸ hf)
    rw [GivesList, GivesList, valuesOf_cons_of_ne he]

private theorem sameFields_addList {kind : Kind} {field : String} (hf : field ∈ kind.childFields)
    (hn : field ∉ ms.map Prod.fst) : SameFields ms ((field, .array []) :: ms) := by
  obtain ⟨hkind, hparameters⟩ := reserved_notMem_childFields kind
  refine ⟨fun _ => ?_, fun _ => ?_, ?_⟩
  · have he : field ≠ "kind" := fun he => hkind (he ▸ hf)
    rw [GivesKind, GivesKind, valuesOf_cons_of_ne he]
  · have he : field ≠ "parameters" := fun he => hparameters (he ▸ hf)
    rw [GivesParameters, GivesParameters, valuesOf_cons_of_ne he]
  · intro other _ wanted _ blocks
    by_cases he : field = wanted
    · subst he
      exact finds_add hn (by rw [blocksOf, blocksOfItems]) blocks
    · rw [GivesList, GivesList, valuesOf_cons_of_ne he]

private theorem kindOf_index (kind : Kind) : kindOf (.integer kind.index) = .ok kind := by
  cases kind <;> rfl

theorem insert_comm {a b : String} (h : a ≠ b) (map : Std.ExtTreeMap String String)
    (s t : String) : (map.insert a s).insert b t = (map.insert b t).insert a s := by
  apply Std.ExtTreeMap.ext_getElem?
  intro name
  simp only [Std.ExtTreeMap.getElem?_insert, Std.LawfulEqCmp.compare_eq_iff_eq]
  by_cases ha : a = name
  · subst ha
    simp [h.symm]
  · simp [ha]

/-- Parameters of different names may be added in any order. -/
theorem addParameters_perm {entries entries' : List (String × Value)}
    (h : entries.Perm entries') (hd : (entries.map Prod.fst).Nodup) (p q : Parameters) :
    addParameters p entries = .ok q ↔ addParameters p entries' = .ok q := by
  induction h generalizing p with
  | nil => rfl
  | cons e _ ih =>
    rw [List.map_cons, List.nodup_cons] at hd
    simp only [addParameters, bind_eq_ok_iff, ih hd.2]
  | swap a b entries =>
    have hne : a.1 ≠ b.1 := by
      rintro he
      simp [he] at hd
    simp only [addParameters, bind_eq_ok_iff]
    constructor
    · rintro ⟨s, hs, t, ht, h⟩
      exact ⟨t, ht, s, hs, insert_comm hne.symm p.entries s t ▸ h⟩
    · rintro ⟨t, ht, s, hs, h⟩
      exact ⟨s, hs, t, ht, insert_comm hne p.entries t s ▸ h⟩
  | trans h _ ih ih' => exact (ih hd p).trans (ih' ((h.map _).nodup_iff.1 hd) p)

end Edits

section Values
variable {ms ms' : List (List Letter × Raw)} {vs : List (String × Value)}

theorem names_of_members (h : Raw.members? ms = some vs) :
    ms.map Prod.fst = (vs.map Prod.fst).map letters := by
  rw [Json.members?_eq_some_iff] at h
  induction h with
  | nil => rfl
  | cons hm _ ih => simp [ih, Json.string?_eq_some_iff.1 hm.1]

private theorem values_rawsOf (name : String) (h : Raw.members? ms = some vs) :
    Raw.values? (rawsOf name ms) = some (valuesOf name vs) := by
  rw [Json.members?_eq_some_iff] at h
  rw [Json.values?_eq_some_iff]
  induction h with
  | nil => exact .nil
  | @cons m n ms vs hm _ ih =>
    obtain ⟨key, r⟩ := m
    obtain ⟨s, v⟩ := n
    obtain rfl := Json.string?_eq_some_iff.1 hm.1
    by_cases hn : s = name
    · subst hn
      rw [valuesOf_cons_self, rawsOf, List.filter_cons_of_pos (by simp)]
      exact .cons hm.2 ih
    · have hl : letters s ≠ letters name := fun he => hn (Json.letters_injective he)
      rw [valuesOf_cons_of_ne hn, rawsOf, List.filter_cons_of_neg (by simpa using hl)]
      exact ih

private theorem IsOfKind.givesKind {kind : Kind} (hk : IsOfKind ms kind)
    (h : Raw.members? ms = some vs) :
    GivesKind vs kind := by
  obtain ⟨r, v, hr, hv, hd⟩ := hk
  have hs := Json.values?_eq_some_iff.1 (values_rawsOf "kind" h)
  rw [hr, List.forall₂_cons_left_iff] at hs
  obtain ⟨w, ws, hw, hn, he⟩ := hs
  obtain rfl := Option.some.inj (hv.symm.trans hw)
  rw [GivesKind, he, List.forall₂_nil_left_iff.1 hn]
  exact finds_singleton.2 hd

private theorem rel_of_some {α β : Type} {R : α → β → Prop} {x : Option α} {y : Option β}
    (h : ∀ a, x = some a → ∃ b, y = some b ∧ R a b) (h' : ∀ b, y = some b → ∃ a, x = some a) :
    Option.Rel R x y := by
  cases x with
  | none =>
    cases y with
    | none => exact .none
    | some b => exact absurd (h' b rfl) (by simp)
  | some a =>
    obtain ⟨b, rfl, hr⟩ := h a rfl
    exact .some hr

private theorem rel_map {α α' β β' : Type} {R : α → β → Prop} {S : α' → β' → Prop} {x : Option α}
    {y : Option β} {f : α → α'} {g : β → β'} (hr : Option.Rel R x y)
    (h : ∀ a b, x = some a → R a b → S (f a) (g b)) : Option.Rel S (x.map f) (y.map g) := by
  cases hr with
  | none => exact .none
  | some hr => exact .some (h _ _ rfl hr)

theorem rel_members_perm (h : ms.Perm ms') :
    Option.Rel List.Perm (Raw.members? ms) (Raw.members? ms') := by
  have transfer {ms ms' : List (List Letter × Raw)} (h : ms.Perm ms') {vs : List (String × Value)}
      (hv : Raw.members? ms = some vs) : ∃ vs', Raw.members? ms' = some vs' ∧ vs.Perm vs' := by
    obtain ⟨vs', hf, hp⟩ := List.perm_comp_forall₂ h.symm (Json.members?_eq_some_iff.1 hv)
    exact ⟨vs', Json.members?_eq_some_iff.2 hf, hp.symm⟩
  refine rel_of_some (fun _ => transfer h) fun vs' hv => ?_
  obtain ⟨vs, hs, -⟩ := transfer h.symm hv
  exact ⟨vs, hs⟩

/-- One member may stand for another of its name if their values are decoded alike. -/
theorem rel_members_replace {name : List Letter} {r r' : Raw}
    (h : ∀ s, name = letters s →
      Option.Rel (fun v v' => ∀ vs, SameFields ((s, v) :: vs) ((s, v') :: vs)) r.value? r'.value?) :
    Option.Rel SameFields (Raw.members? ((name, r) :: ms)) (Raw.members? ((name, r') :: ms)) := by
  rw [Raw.members?, Raw.members?]
  cases hs : string? name with
  | none => exact .none
  | some s =>
    have hr := h s (Json.string?_eq_some_iff.1 hs)
    generalize r.value? = x at hr
    generalize r'.value? = y at hr
    cases hr with
    | none => exact .none
    | some hv =>
      cases Raw.members? ms with
      | none => exact .none
      | some vs => exact .some (hv vs)

theorem rel_members_add {name : List Letter} {r : Raw} {s : String} {v : Value}
    (hn : string? name = some s) (hr : r.value? = some v)
    (h : ∀ vs, Raw.members? ms = some vs → SameFields vs ((s, v) :: vs)) :
    Option.Rel SameFields (Raw.members? ms) (Raw.members? ((name, r) :: ms)) := by
  rw [Raw.members?, hn, hr]
  cases hm : Raw.members? ms with
  | none => exact .none
  | some vs => exact .some (h vs hm)

theorem string?_letters (s : String) : string? (letters s) = some s :=
  Json.string?_eq_some_iff.2 rfl

private theorem value?_indexText (kind : Kind) :
    (Raw.number kind.indexText).value? = some (.integer kind.index) := by
  cases kind <;> rfl

/-- Parameters are decoded alike in whatever order they stand. -/
theorem rel_parameters {entries entries' : List (List Letter × Raw)}
    (hd : (entries.map Prod.fst).Nodup) (hp : entries.Perm entries') (name : String) :
    Option.Rel (fun v v' => ∀ vs, SameFields ((name, v) :: vs) ((name, v') :: vs))
      (Raw.object entries).value? (Raw.object entries').value? := by
  rw [Raw.value?, Raw.value?]
  refine rel_map (rel_members_perm hp) fun es es' he hp vs => ?_
  have hes : (es.map Prod.fst).Nodup := by
    rw [names_of_members he] at hd
    exact hd.of_map
  refine sameFields_replace (fun _ kind => ?_) (fun _ => addParameters_perm hp hes {})
    fun blocks => ?_
  · simp [kindOf, Value.found]
  · rw [blocksOf_of_ne (by simp), blocksOf_of_ne (by simp)]
    simp [Value.found]

/-- An edit changes nothing that a block is made of. -/
theorem Edit.rel (h : Edit Readable ms ms') :
    Option.Rel SameFields (Raw.members? ms) (Raw.members? ms') := by
  cases h with
  | reorder hp =>
    have hr := rel_map (f := id) (g := id) (S := SameFields) (rel_members_perm hp)
      fun _ _ _ hp => sameFields_of_perm hp
    rwa [Option.map_id_fun, id, id] at hr
  | reorderParameters hd hp => exact rel_members_replace fun s _ => rel_parameters hd hp s
  | @addUnused kind name r ms hk hn ha =>
    obtain ⟨hw, hpc⟩ := ha
    obtain ⟨s, hs⟩ := Json.exists_string?_iff.2 hw
    obtain ⟨v, hv⟩ := Json.exists_value?_iff.2 hpc
    refine rel_members_add hs hv fun vs hm => sameFields_addUnused (hk.givesKind hm) fun hmem => ?_
    obtain rfl := Json.string?_eq_some_iff.1 hs
    exact hn (List.mem_map_of_mem hmem)
  | addParameters hn =>
    refine rel_members_add (string?_letters _) rfl fun vs hm => sameFields_addParameters ?_
    rw [names_of_members hm] at hn
    exact fun hmem => hn (List.mem_map_of_mem hmem)
  | addList hk hf hn =>
    refine rel_members_add (string?_letters _) rfl fun vs hm => sameFields_addList hf ?_
    rw [names_of_members hm] at hn
    exact fun hmem => hn (List.mem_map_of_mem hmem)
  | @useIndex kind ms =>
    refine rel_members_replace fun s _ => ?_
    rw [value?_indexText, Raw.value?, string?_letters]
    refine .some fun vs => sameFields_replace (fun _ other => ?_) (fun _ p => ?_) fun blocks => ?_
    · rw [kindOf_name, kindOf_index]
    · simp [parametersOf]
    · rw [blocksOf_of_ne (by simp), blocksOf_of_ne (by simp)]
      simp

end Values

section Blocks

/-- The values are decoded to the same block, or both to none. -/
def SameBlock (v v' : Value) : Prop :=
  ∀ block, blockOf v = .ok block ↔ blockOf v' = .ok block

def SameBlocks (vs vs' : List Value) : Prop :=
  ∀ blocks, blocksOfItems vs = .ok blocks ↔ blocksOfItems vs' = .ok blocks

mutual

/-- A block decodes as before one edit. -/
theorem Respells.rel {r r' : Raw} : Respells Readable r r' →
    Option.Rel SameBlock r.value? r'.value?
  | .edit h => by
    rw [Raw.value?, Raw.value?]
    refine rel_map h.rel fun vs vs' _ hs block => ?_
    rw [blockOf_object_iff, blockOf_object_iff]
    exact hs.describes_iff block
  | .inside h => by
    have hi := h.rel
    rw [Raw.value?, Raw.value?]
    refine rel_map (rel_members_replace fun name _ => ?_) fun vs vs' _ hs block => ?_
    · rw [Raw.value?, Raw.value?]
      refine rel_map hi fun items items' _ hs vs => ?_
      refine sameFields_replace (fun _ kind => ?_) (fun _ p => ?_) fun blocks => ?_
      · simp [kindOf, Value.found]
      · simp [parametersOf, Value.found]
      · rw [blocksOf, blocksOf]
        exact hs blocks
    · rw [blockOf_object_iff, blockOf_object_iff]
      exact hs.describes_iff block

theorem RespellsOne.rel {items items' : List Raw} : RespellsOne Readable items items' →
    Option.Rel SameBlocks (Raw.values? items) (Raw.values? items')
  | @RespellsOne.head _ r r' rest h => by
    have hr := h.rel
    rw [Raw.values?, Raw.values?]
    generalize r.value? = x at hr
    generalize r'.value? = y at hr
    cases hr with
    | none => exact .none
    | some hv =>
      cases Raw.values? rest with
      | none => exact .none
      | some vs =>
        refine .some fun blocks => ?_
        simp only [blocksOfItems, bind_eq_ok_iff, hv _]
  | @RespellsOne.tail _ r items items' h => by
    have hr := h.rel
    rw [Raw.values?, Raw.values?]
    generalize Raw.values? items = x at hr
    generalize Raw.values? items' = y at hr
    cases r.value? with
    | none => exact .none
    | some v =>
      cases hr with
      | none => exact .none
      | some hs =>
        refine .some fun blocks => ?_
        simp only [blocksOfItems, bind_eq_ok_iff, hs _]

end

theorem SpelledAlike.step {admits : List Letter → Raw → Prop} {a b c : List Raw}
    (h : RespellsOne admits a b) (hs : SpelledAlike admits b c) : SpelledAlike admits a c :=
  .trans _ _ _ (.rel _ _ h) hs

theorem SpelledAlike.back {admits : List Letter → Raw → Prop} {a b c : List Raw}
    (h : RespellsOne admits b a) (hs : SpelledAlike admits b c) : SpelledAlike admits a c :=
  .trans _ _ _ (.symm _ _ (.rel _ _ h)) hs

/-- A list of blocks decodes as before any number of edits. -/
theorem SpelledAlike.rel {items items' : List Raw} (h : SpelledAlike Readable items items') :
    Option.Rel SameBlocks (Raw.values? items) (Raw.values? items') := by
  induction h with
  | rel _ _ h => exact h.rel
  | refl items =>
    cases Raw.values? items with
    | none => exact .none
    | some vs => exact .some fun _ => Iff.rfl
  | symm a b _ ih =>
    generalize Raw.values? a = x at ih
    generalize Raw.values? b = y at ih
    cases ih with
    | none => exact .none
    | some hs => exact .some fun blocks => (hs blocks).symm
  | trans a b c _ _ ih ih' =>
    generalize Raw.values? a = x at ih
    generalize Raw.values? b = y at ih ih'
    generalize Raw.values? c = z at ih'
    cases ih with
    | none => exact ih'
    | some hs =>
      cases ih' with
      | some hs' => exact .some fun blocks => (hs blocks).trans (hs' blocks)

private theorem exists_items {r : Raw} {vs : List Value} (h : r.value? = some (.array vs)) :
    ∃ items, r = .array items ∧ Raw.values? items = some vs := by
  cases r with
  | array items =>
    obtain ⟨vs', hs, he⟩ := Option.map_eq_some_iff.1 h
    cases he
    exact ⟨items, rfl, hs⟩
  | number t =>
    obtain ⟨n, he⟩ | ⟨x, he⟩ := Json.integer_or_double (Json.toOption_eq_some_iff.1 h) <;> cases he
  | string ls =>
    obtain ⟨s, -, he⟩ := Option.map_eq_some_iff.1 h
    cases he
  | object ms =>
    obtain ⟨vs', -, he⟩ := Option.map_eq_some_iff.1 h
    cases he
  | null => cases h
  | bool b => cases h

end Blocks

/-- The spelling of a program does not matter. A text that is loaded is a list of blocks, and every
JSON text with a list that differs by edits, at any depth and in any number, is loaded as the same
program, as long as every member that was added has a value. -/
theorem load_of_spelledAlike (text : List Char) (program : List Block)
    (h : load text = .ok program) :
    ∃ items, (∀ r, IsText text r ↔ r = .array items) ∧
      ∀ items' text', SpelledAlike Readable items items' → IsText text' (.array items') →
        load text' = .ok program := by
  obtain ⟨v, hv⟩ := document_of_load h
  rw [load_of_document hv, mapError_eq_ok_iff] at h
  obtain ⟨vs, rfl⟩ : ∃ vs, v = .array vs := by
    by_contra hn
    rw [blocksOf_of_ne fun vs he => hn ⟨vs, he⟩] at h
    cases h
  obtain ⟨r, hr, hv⟩ := Json.document_iff.1 hv
  obtain ⟨items, rfl, hi⟩ := exists_items hv
  refine ⟨items, fun r => ⟨fun h => Json.isText_unique h hr, fun h => h ▸ hr⟩, ?_⟩
  intro items' text' hs ht
  have hrel := hs.rel
  rw [hi] at hrel
  generalize hi' : Raw.values? items' = y at hrel
  cases hrel with
  | @some _ vs' hb =>
    have hv' : (Raw.array items').value? = some (.array vs') := by rw [Raw.value?, hi']; rfl
    rw [load_of_document (Json.document_iff.2 ⟨_, ht, hv'⟩), mapError_eq_ok_iff]
    rw [blocksOf] at h ⊢
    exact (hb program).1 h

section Examples
open Json (IsRawString isNumberText_digit isPair_compact isRaw_array isRaw_number isRaw_object
  isRaw_scalar isRawString_plain isText_of_isRaw row_last row_more)

def plainText : List Char :=
  "[\x7b\"kind\":0\x7d]".toList

/-- A declaration inside a conditional block. -/
def nestedText : List Char :=
  "[\x7b\"kind\":3,\"body\":[\x7b\"kind\":0\x7d]\x7d]".toList

/-- The same blocks: the outer kind is given by its name, members have changed their places, and both
blocks have one member more. -/
def respelledText : List Char :=
  "[\x7b\"x\":null,\"body\":[\x7b\"parameters\":\x7b\x7d,\"kind\":0\x7d],\"kind\":\"If\"\x7d]".toList

private def nestedRaw : List Raw :=
  [.object [(letters "kind", .number Kind.ifThen.indexText),
    (letters "body", .array [.object [(letters "kind", .number Kind.declareVars.indexText)]])]]

private def respelledRaw : List Raw :=
  [.object [(letters "x", .null),
    (letters "body", .array [.object [(letters "parameters", .object []),
      (letters "kind", .number Kind.declareVars.indexText)]]),
    (letters "kind", .string (letters "If"))]]

private theorem isText_nested : IsText nestedText (.array nestedRaw) := by
  have hkind : IsRawString "\"kind\"".toList (letters "kind") := isRawString_plain (by decide)
  have hbody : IsRawString "\"body\"".toList (letters "body") := isRawString_plain (by decide)
  have hinner := isRaw_object (d := 123) (.some (row_last
    (isPair_compact hkind (isRaw_number (isNumberText_digit '0' rfl) rfl))))
  have houter := isRaw_object (.some (row_more
    (isPair_compact hkind (isRaw_number (isNumberText_digit '3' rfl) rfl))
    (row_last (isPair_compact hbody (isRaw_array (.some (row_last hinner)))))))
  exact isText_of_isRaw (isRaw_array (.some (row_last houter)))

private theorem isText_respelled : IsText respelledText (.array respelledRaw) := by
  have hx : IsRawString "\"x\"".toList (letters "x") := isRawString_plain (by decide)
  have hkind : IsRawString "\"kind\"".toList (letters "kind") := isRawString_plain (by decide)
  have hbody : IsRawString "\"body\"".toList (letters "body") := isRawString_plain (by decide)
  have hname : IsRawString "\"If\"".toList (letters "If") := isRawString_plain (by decide)
  have hparameters : IsRawString "\"parameters\"".toList (letters "parameters") :=
    isRawString_plain (by decide)
  have hinner := isRaw_object (d := 123) (.some (row_more
    (isPair_compact hparameters (isRaw_object (d := 122) (.none Json.blanks_nil)))
    (row_last (isPair_compact hkind (isRaw_number (isNumberText_digit '0' rfl) rfl)))))
  have houter := isRaw_object (.some (row_more (isPair_compact hx (isRaw_scalar .null))
    (row_more (isPair_compact hbody (isRaw_array (.some (row_last hinner))))
      (row_last (isPair_compact hkind (isRaw_scalar (.string hname)))))))
  exact isText_of_isRaw (isRaw_array (.some (row_last houter)))

theorem load_respelled :
    load nestedText = .ok [.ifThen {} [.declareVars {}]] ∧
      load respelledText = .ok [.ifThen {} [.declareVars {}]] := by
  have hl : load nestedText = .ok [.ifThen {} [.declareVars {}]] := by cbv
  obtain ⟨items, hi, h⟩ := load_of_spelledAlike _ _ hl
  obtain rfl := Raw.array.inj ((hi _).1 isText_nested)
  refine ⟨hl, h _ _ ?_ isText_respelled⟩
  -- Each edit needs its member in front, so members come first and go back behind the rest.
  refine .back (.head (.edit (@Edit.useIndex _ .ifThen _))) ?_
  refine .step (.head (.edit (.reorder (.swap _ _ _)))) ?_
  refine .step (.head (.inside (.head (.edit (.addParameters (by decide)))))) ?_
  have hk (r : Raw) :
      IsOfKind [(letters "body", r), (letters "kind", .string (letters "If"))] .ifThen :=
    ⟨.string (letters "If"), .string "If", rfl, rfl, rfl⟩
  have hr : Readable (letters "x") .null := ⟨by simp [Json.Whole, letters], trivial, trivial⟩
  exact .step (.head (.edit (.addUnused (hk _) (by decide) hr))) (.refl _)

/-- A member that blocks have no use for cannot be added with any value: with a number beyond the
range of the doubles the text is not loaded any more. -/
theorem unreadable_member_is_refused :
    load plainText = .ok [.declareVars {}] ∧
      ∃ items items', IsText plainText (.array items) ∧
        SpelledAlike (fun _ _ => True) items items' ∧
        IsText (extraText "1e999") (.array items') ∧
        load (extraText "1e999") = .error (.json .malformed) := by
  have ht : IsText plainText
      (.array [.object [(letters "kind", .number Kind.declareVars.indexText)]]) := by
    have hkind : IsRawString "\"kind\"".toList (letters "kind") := isRawString_plain (by decide)
    have hblock := isRaw_object (d := 125) (.some (row_last
      (isPair_compact hkind (isRaw_number (isNumberText_digit '0' rfl) rfl))))
    exact isText_of_isRaw (isRaw_array (.some (row_last hblock)))
  have hk : IsOfKind [(letters "kind", .number Kind.declareVars.indexText)] .declareVars :=
    ⟨_, .integer 0, rfl, rfl, rfl⟩
  have hn : letters "x" ∉
      ("kind" :: "parameters" :: Kind.declareVars.childFields).map letters := by decide
  have he : IsText (extraText "1e999") (extraRaw (wholeText "1" "999")) :=
    isText_extra (isNumberText_wholeText (by decide) (by decide)) rfl
  refine ⟨by cbv, _, _, ht, ?_, he, by cbv⟩
  have hadd : Edit (fun _ _ => True) _ ((letters "x", .number (wholeText "1" "999")) :: _) :=
    .addUnused hk hn trivial
  exact .step (.head (.edit hadd)) (.step (.head (.edit (.reorder (.swap _ _ _)))) (.refl _))

end Examples

end BlockTrace.Program
