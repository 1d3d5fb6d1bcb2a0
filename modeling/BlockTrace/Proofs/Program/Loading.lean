import BlockTrace.Program.Load
import BlockTrace.Proofs.Json.Unambiguous
import BlockTrace.Proofs.Program.Members

/-! A program is read in one pass over the text, and yet it is the program that is found by reading
the text as a tree first and decoding the tree afterwards. -/
namespace BlockTrace.Program
open Json (Decodes Enclosed Ends IsGiven IsMember IsNested IsValue Led Reader Value plain)

section Openings
variable {α γ : Type} {opening : Char} {wanted : Wanted} {inside : Reader LoadFault α}
  {P : List Char → Value → Prop} {text rest more : List Char} {c : Char} {v : Value}

private theorem opened_blanks (hs : Json.skipSpace text = []) :
    opened opening wanted inside text = .error (.json .truncated) := by
  unfold opened
  split
  · rfl
  next he => cases hs.symm.trans he

theorem plain_opened (hs : Json.skipSpace text = c :: more) :
    plain (opened opening wanted inside text) =
      if c = opening then plain (inside more) else .error (mismatch wanted c more) := by
  unfold opened
  split
  next he => cases hs.symm.trans he
  next d left he =>
    obtain ⟨rfl, rfl⟩ := List.cons.inj (hs.symm.trans he)
    split
    · exact Json.plain_rebound _
    · rfl

/-- A value of the wrong type is named by what it is, not by what is inside. -/
theorem mismatch_of_isNested {core : List Char} (h : IsNested P core v) (hc : core = c :: more)
    (hr : Ends rest) : mismatch wanted c (more ++ rest) = .shape (.wrongType v.found wanted) := by
  cases h with
  | scalar hs =>
    obtain ⟨d, left, he, -, ha, -, ho⟩ := hs.exists_head
    obtain ⟨rfl, rfl⟩ := List.cons.inj (hc.symm.trans he)
    obtain ⟨hl, hx⟩ := Json.plain_eq_ok_iff.1 (Json.plain_scalar hs hc hr)
    simp only [mismatch, if_neg ha, if_neg ho, hx]
  | array _ =>
    obtain ⟨rfl, rfl⟩ := List.cons.inj hc
    rfl
  | object _ =>
    obtain ⟨rfl, rfl⟩ := List.cons.inj hc
    rfl

/-- A reader of values that start with `opening`. The values that do are those that `build` makes of
what stands after it, and any other is of the wrong type. -/
theorem decodes_opened {Q : List Char → γ → Prop} {fill : γ → Except LoadFault α}
    {decode : Value → Except LoadFault α} (build : γ → Value) (hd : Decodes inside Q fill)
    (hto : ∀ {core g}, Q core g → IsNested P (opening :: core) (build g))
    (hfrom : ∀ {c core v}, IsNested P (c :: core) v →
      (c = opening ∧ ∃ g, Q core g ∧ v = build g) ∨
        (c ≠ opening ∧ decode v = .error (.shape (.wrongType v.found wanted))))
    (hdecode : ∀ g, decode (build g) = fill g) :
    Decodes (opened opening wanted inside) (Led (IsNested P)) decode where
  sound := by
    intro text rest a h
    cases hs : Json.skipSpace text with
    | nil =>
      rw [opened_blanks hs] at h
      cases h
    | cons c more =>
      rw [plain_opened hs] at h
      split at h
      next hc =>
        obtain ⟨core, g, hq, hg, hm⟩ := hd.sound h
        obtain ⟨led, hl, ht⟩ := Json.led_of_skipSpace (P := IsNested P) hs (hc ▸ hto hq) hm
        exact ⟨led, build g, hl, (hdecode g).trans hg, ht⟩
      · cases h
  complete := by
    rintro _ v rest ⟨blanks, core, hk, hn, rfl⟩ hr
    obtain ⟨c, more, rfl, hsp, -⟩ := hn.exists_head
    rw [plain_opened (Json.skipSpace_led hk hsp more rest)]
    obtain ⟨rfl, g, hq, rfl⟩ | ⟨hne, hv⟩ := hfrom hn
    · rw [if_pos rfl, hdecode, hd.complete hq hr]
    · rw [if_neg hne, hv, mismatch_of_isNested hn rfl hr]
      rfl

theorem decodes_opened_object {fill : List (String × Value) → Except LoadFault α}
    {decode : Value → Except LoadFault α}
    (hd : Decodes inside (Enclosed '\x7d' (IsMember P)) fill)
    (hobject : ∀ ms, decode (.object ms) = fill ms)
    (hother : ∀ v, (∀ ms, v ≠ .object ms) →
      decode v = .error (.shape (.wrongType v.found wanted))) :
    Decodes (opened '\x7b' wanted inside) (Led (IsNested P)) decode := by
  refine decodes_opened Value.object hd (fun hm => .object hm) ?_ hobject
  intro c core v hn
  obtain ⟨rfl, items, -, rfl⟩ | ⟨rfl, ms, hm, rfl⟩ | ⟨rfl, s, -, rfl⟩ | ⟨hc, hv⟩ :=
    hn.head_cases rfl
  · exact .inr ⟨by decide, hother _ (by simp)⟩
  · exact .inl ⟨rfl, ms, hm, rfl⟩
  · exact .inr ⟨by decide, hother _ (by simp)⟩
  · refine .inr ⟨fun h => hc (by simp [h]), hother _ fun ms hm => ?_⟩
    simp [hm] at hv

end Openings

section Parameters

theorem decodes_afterColon {α β : Type} {inside : Reader LoadFault β} {P : List Char → α → Prop}
    {decode : α → Except LoadFault β} (hd : Decodes inside P decode) :
    Decodes (afterColon inside) (IsGiven P) decode := by
  refine hd.given ?_ ?_
  · intro text rest h hc
    simp only [afterColon, hc]
    exact Json.plain_rebound _
  · intro text fault hc
    exact ⟨.json fault, by simp only [afterColon, hc]⟩

private theorem decodes_readString (depth : Nat) :
    Decodes readString (IsValue (depth + 1)) fun v => (stringOf v).mapError .shape := by
  refine decodes_opened Value.string (Json.decodes_string.mapError LoadFault.json) ?_ ?_ ?_
  · intro core s hs
    exact .scalar (.string hs)
  · intro c core v hn
    obtain ⟨rfl, items, -, rfl⟩ | ⟨rfl, ms, -, rfl⟩ | ⟨rfl, s, hs, rfl⟩ | ⟨hc, hv⟩ :=
      hn.head_cases rfl
    · exact .inr ⟨by decide, rfl⟩
    · exact .inr ⟨by decide, rfl⟩
    · exact .inl ⟨rfl, s, hs, rfl⟩
    · refine .inr ⟨fun h => hc (by simp [h]), ?_⟩
      rcases hv with rfl | ⟨b, rfl⟩ | ⟨n, rfl⟩ | ⟨x, rfl⟩ <;> rfl
  · intro s
    rfl

/-- Parameters with one more text. -/
def Parameters.set (p : Parameters) (name text : String) : Parameters :=
  ⟨p.entries.insert name text⟩

private theorem addParameters_eq_foldlM (p : Parameters) (ms : List (String × Value)) :
    addParameters p ms = ms.foldlM (fun p m => (stringOf m.2).map (p.set m.1)) p := by
  induction ms generalizing p with
  | nil => rfl
  | cons m ms ih =>
    rw [addParameters, List.foldlM_cons]
    cases stringOf m.2 with
    | error fault => rfl
    | ok text => exact ih _

private theorem decodes_readParameters (depth : Nat) :
    Decodes readParameters (IsValue (depth + 2)) fun v => (parametersOf v).mapError .shape := by
  have hmember (p : Parameters) (name : String) :
      Decodes (readParameter p name) (IsGiven (IsValue (depth + 1))) fun v =>
        ((stringOf v).map (p.set name)).mapError .shape := by
    simp only [mapError_map]
    exact decodes_afterColon ((decodes_readString depth).map (p.set name))
  refine decodes_opened_object (Json.decodes_members hmember {}) ?_ ?_
  · intro ms
    exact (congrArg _ (addParameters_eq_foldlM {} ms)).trans (foldlM_mapError _ _ _ _).symm
  · intro v hv
    cases v with
    | object ms => exact absurd rfl (hv ms)
    | _ => rfl

end Parameters

section Blocks

def Draft.settle (draft : Draft) (p : Parameters) : Draft :=
  { draft with parameters := some p }

def Draft.keep (draft : Draft) (name : String) (value : Value) : Draft :=
  { draft with kept := (name, value) :: draft.kept }

/-- What a member adds to what is known of a block. -/
def Draft.add (draft : Draft) (name : String) (value : Value) : Except ShapeFault Draft :=
  if name = "parameters" then
    match draft.parameters with
    | some _ => .error (.duplicateField "parameters")
    | none => (parametersOf value).map draft.settle
  else .ok (draft.keep name value)

private theorem decodes_readKept : Decodes readKept (IsValue 125) .ok :=
  (Json.decodes_value 125).mapError LoadFault.json

private theorem decodes_readMember (draft : Draft) (name : String) :
    Decodes (readMember draft name) (IsGiven (IsValue 125)) fun v =>
      (draft.add name v).mapError .shape := by
  by_cases hn : name = "parameters"
  · cases hp : draft.parameters with
    | some p =>
      constructor
      · intro text rest next h
        simp [readMember, hn, hp, plain, Except.map] at h
      · intro core v rest _ _
        simp only [readMember, Draft.add, if_pos hn, hp]
        rfl
    | none =>
      have hr : readMember draft name = afterColon fun text =>
          (readParameters text).map (Json.Parsed.map draft.settle) := by
        simp only [readMember, if_pos hn, hp]
        rfl
      have ha (v : Value) : draft.add name v = (parametersOf v).map draft.settle := by
        simp only [Draft.add, if_pos hn, hp]
      simp only [hr, ha, mapError_map]
      exact decodes_afterColon ((decodes_readParameters 123).map draft.settle)
  · have hr : readMember draft name = afterColon fun text =>
        (readKept text).map (Json.Parsed.map (draft.keep name)) := by
      simp only [readMember, if_neg hn]
      rfl
    simp only [hr, Draft.add, if_neg hn]
    exact decodes_afterColon (decodes_readKept.map (draft.keep name))

/-- The members without the parameters. -/
def others (ms : List (String × Value)) : List (String × Value) :=
  ms.filter fun m => m.1 ≠ "parameters"

/-- Collecting the members of a block finds its parameters and keeps the others in their order. -/
theorem foldlM_add {β : Type} (ms : List (String × Value)) (draft : Draft)
    (k : Parameters → List (String × Value) → Except ShapeFault β) :
    (ms.foldlM (fun draft m => Draft.add draft m.1 m.2) draft >>= fun draft =>
        k (draft.parameters.getD {}) draft.kept.reverse) =
      findParameters draft.parameters ms >>= fun p => k p (draft.kept.reverse ++ others ms) := by
  induction ms generalizing draft with
  | nil => simp [findParameters, others, bind, Except.bind, pure, Except.pure]
  | cons m ms ih =>
    obtain ⟨name, value⟩ := m
    rw [List.foldlM_cons, bind_assoc]
    by_cases hn : name = "parameters"
    · have ho : others ((name, value) :: ms) = others ms := by simp [others, hn]
      rw [ho]
      cases hp : draft.parameters with
      | some p =>
        -- Given twice: both sides stop here, whatever the value is.
        simp only [Draft.add, findParameters, if_pos hn, hp]
        rfl
      | none =>
        simp only [Draft.add, findParameters, if_pos hn, hp]
        cases parametersOf value with
        | error fault => rfl
        | ok p => exact ih _
    · have ho : others ((name, value) :: ms) = (name, value) :: others ms := by simp [others, hn]
      have ha : draft.add name value = .ok (draft.keep name value) := if_neg hn
      have hf : findParameters draft.parameters ((name, value) :: ms) =
          findParameters draft.parameters ms := if_neg hn
      rw [ho, ha, ok_bind, ih, hf]
      simp [Draft.keep]

private theorem blockOfMembers_others (p : Parameters) (ms : List (String × Value)) :
    blockOfMembers p (others ms) = blockOfMembers p ms := by
  have hf (kind : Kind) : ∀ field ∈ kind.childFields, decide (field ≠ "parameters") := by
    cases kind <;> decide
  have hk : findKind none (others ms) = findKind none ms :=
    findKind_filter (fun name => name ≠ "parameters") (by decide) none ms
  have hc (kind : Kind) : childrenOf kind.childFields [] (others ms) =
      childrenOf kind.childFields [] ms :=
    childrenOf_filter (fun name => name ≠ "parameters") (hf kind) [] ms
  simp only [blockOfMembers, hk, hc]

theorem blockOf_of_ne {v : Value} (hv : ∀ ms, v ≠ .object ms) :
    blockOf v = .error (.wrongType v.found .block) := by
  cases v with
  | object ms => exact absurd rfl (hv ms)
  | _ => simp [blockOf]

theorem blocksOf_of_ne {v : Value} (hv : ∀ items, v ≠ .array items) :
    blocksOf v = .error (.wrongType v.found .sequence) := by
  cases v with
  | array items => exact absurd rfl (hv items)
  | _ => simp [blocksOf]

private theorem decodes_readBlock :
    Decodes readBlock (IsValue 126) fun v => (blockOf v).mapError .shape := by
  refine decodes_opened_object
    ((Json.decodes_members decodes_readMember {}).andThen fun draft =>
      (blockOfMembers (draft.parameters.getD {}) draft.kept.reverse).mapError .shape) ?_ ?_
  · intro ms
    rw [foldlM_mapError LoadFault.shape fun draft (m : String × Value) => Draft.add draft m.1 m.2,
      bind_mapError, foldlM_add, blockOf]
    simp [blockOfMembers_others]
  · intro v hv
    rw [blockOf_of_ne hv]
    rfl

private theorem mapM_blockOf (items : List Value) :
    items.mapM (fun v => (blockOf v).mapError LoadFault.shape) =
      (blocksOfItems items).mapError .shape := by
  induction items with
  | nil =>
    rw [blocksOfItems]
    rfl
  | cons item items ih =>
    rw [List.mapM_cons, ih, blocksOfItems]
    cases blockOf item with
    | error fault => rfl
    | ok block =>
      cases blocksOfItems items with
      | error fault => rfl
      | ok blocks => rfl

theorem decodes_readProgram :
    Decodes readProgram (IsValue Json.nestingLimit) fun v => (blocksOf v).mapError .shape := by
  refine decodes_opened Value.array
    (Json.decodes_items decodes_readBlock (Json.opens_isValue 126)) (fun hi => .array hi) ?_ ?_
  · intro c core v hn
    obtain ⟨rfl, items, hi, rfl⟩ | ⟨rfl, ms, -, rfl⟩ | ⟨rfl, s, -, rfl⟩ | ⟨hc, hv⟩ :=
      hn.head_cases rfl
    · exact .inl ⟨rfl, items, hi, rfl⟩
    · exact .inr ⟨by decide, by rw [blocksOf_of_ne (by simp)]; rfl⟩
    · exact .inr ⟨by decide, by rw [blocksOf_of_ne (by simp)]; rfl⟩
    · refine .inr ⟨fun h => hc (by simp [h]), ?_⟩
      rw [blocksOf_of_ne fun items hi => by simp [hi] at hv]
      rfl
  · intro items
    rw [blocksOf, mapM_blockOf]

theorem load_of_document {text : List Char} {v : Value} (h : Json.Document text v) :
    load text = (blocksOf v).mapError .shape := by
  obtain ⟨core, blanks, hc, hk, rfl⟩ := h
  obtain ⟨fault, hf, hr⟩ | ⟨program, hl, hf, hr⟩ :=
    decodes_readProgram.cases hc (Json.ends_of_blanks hk)
  · rw [load, hf, hr]
    rfl
  · simp only [load, hf, hr, ok_bind, Json.skipSpace_of_blanks hk, if_true]
    rfl

theorem document_of_load {text : List Char} {program : List Block} (h : load text = .ok program) :
    ∃ v, Json.Document text v := by
  obtain ⟨⟨blocks, left, hl⟩, hr, h⟩ := bind_eq_ok_iff.1 h
  split at h
  next hs =>
    obtain ⟨core, v, hc, -, rfl⟩ := decodes_readProgram.sound (Json.plain_eq_ok_iff.2 ⟨hl, hr⟩)
    exact ⟨v, core, left, hc, Json.blanks_of_skipSpace hs, rfl⟩
  · cases h

/-- Loading a text fails if it is no JSON text, or if half of a pair of surrogates stands alone in it
or a number has no value. Otherwise loading gives the program, or the fault, that decoding its value
gives. Which numbers have a value is decided by their exact size, except next to the largest
double. -/
theorem load_eq_decoded_document (text : List Char) :
    ((¬ ∃ r, Json.IsText text r ∧ r.Paired ∧ r.Converts) → ∃ fault, load text = .error fault) ∧
      (∀ r, Json.IsText text r → r.Paired → r.Converts →
        ∃ v, r.value? = some v ∧ Json.parse text = .ok v ∧
          load text = (blocksOf v).mapError .shape) ∧
      ∀ r, Json.IsText text r → r.Every Json.NumberText.Decided fun _ => True := by
  refine ⟨fun hn => ?_, fun r hr hp hc => ?_, fun r => Json.every_decided⟩
  · cases h : load text with
    | error fault => exact ⟨fault, rfl⟩
    | ok program =>
      obtain ⟨v, hv⟩ := document_of_load h
      obtain ⟨r, hr, hv⟩ := Json.document_iff.1 hv
      exact absurd ⟨r, hr, Json.exists_value?_iff.1 ⟨v, hv⟩⟩ hn
  · obtain ⟨v, hv⟩ := Json.exists_value?_iff.2 ⟨hp, hc⟩
    have hd := Json.document_iff.2 ⟨r, hr, hv⟩
    exact ⟨v, hv, Json.parse_eq_ok_iff.2 hd, load_of_document hd⟩

/-- Half of a pair of surrogates that stands alone makes loading fail. In a text without one, a list
of blocks that is given twice is found although another block and a member without use come
first. -/
theorem load_reports_second_body :
    (¬ ∃ r, Json.IsText "[\"\\ud800\"]".toList r ∧ r.Paired ∧ r.Converts) ∧
      (∃ fault, load "[\"\\ud800\"]".toList = .error fault) ∧
      (∃ r, Json.IsText
        "[\x7b\"x\":7,\"kind\":3,\"body\":[\x7b\"kind\":1\x7d],\"body\":[]\x7d ]".toList r ∧
          r.Paired ∧ r.Converts) ∧
      load "[\x7b\"x\":7,\"kind\":3,\"body\":[\x7b\"kind\":1\x7d],\"body\":[]\x7d ]".toList =
        .error (.shape (.duplicateField "body")) := by
  have hhalf : Json.parse "[\"\\ud800\"]".toList = .error .malformed := by cbv
  have hn : ¬ ∃ r, Json.IsText "[\"\\ud800\"]".toList r ∧ r.Paired ∧ r.Converts := by
    rintro ⟨r, hr, hpc⟩
    obtain ⟨v, hv⟩ := Json.exists_value?_iff.2 hpc
    cases hhalf.symm.trans (Json.parse_eq_ok_iff.2 (Json.document_iff.2 ⟨r, hr, hv⟩))
  have hp : Json.parse
      "[\x7b\"x\":7,\"kind\":3,\"body\":[\x7b\"kind\":1\x7d],\"body\":[]\x7d ]".toList =
        .ok (.array [.object [("x", .integer 7), ("kind", .integer 3),
      ("body", .array [.object [("kind", .integer 1)]]), ("body", .array [])]]) := by cbv
  obtain ⟨r, hr, hv⟩ := Json.document_iff.1 (Json.parse_eq_ok_iff.1 hp)
  obtain ⟨hpaired, hc⟩ := Json.exists_value?_iff.1 ⟨_, hv⟩
  have hb : blocksOf (.array [.object [("x", .integer 7), ("kind", .integer 3),
      ("body", .array [.object [("kind", .integer 1)]]), ("body", .array [])]]) =
      .error (.duplicateField "body") := by cbv
  refine ⟨hn, (load_eq_decoded_document _).1 hn, ⟨r, hr, hpaired, hc⟩, ?_⟩
  obtain ⟨w, hw, -, hl⟩ := (load_eq_decoded_document _).2.1 r hr hpaired hc
  obtain rfl := Option.some.inj (hv.symm.trans hw)
  rw [hl, hb]
  rfl

end Blocks

section Extra
open Json (IsNumberText IsRawString IsText NumberText Raw isNumberText_digit isPair_compact
  isRaw_array isRaw_number isRaw_object isRawString_plain isText_of_isRaw letters row_last row_more)

/-- A block with a number in a member that it has no use for. -/
def extraText (number : String) : List Char :=
  '[' :: '\x7b' :: ("\"kind\":0,\"x\":".toList ++ (number.toList ++ ['\x7d', ']']))

def extraRaw (t : NumberText) : Raw :=
  .array [.object [(letters "kind", .number ⟨false, ['0'], none, none⟩), (letters "x", .number t)]]

theorem isText_extra {number : String} {t : NumberText} (h : IsNumberText number.toList t)
    (hn : t.negative = false) : IsText (extraText number) (extraRaw t) := by
  have hkind : IsRawString "\"kind\"".toList (letters "kind") := isRawString_plain (by decide)
  have hx : IsRawString "\"x\"".toList (letters "x") := isRawString_plain (by decide)
  have hblock := isRaw_object (d := 125) (.some (row_more
    (isPair_compact hkind (isRaw_number (isNumberText_digit '0' rfl) rfl))
    (row_last (isPair_compact hx (isRaw_number h hn)))))
  have ht := isText_of_isRaw (isRaw_array (.some (row_last hblock)))
  simpa [extraText, extraRaw] using ht

/-- A whole number times a power of ten. -/
def wholeText (digits power : String) : NumberText :=
  ⟨false, digits.toList, none, some (false, power.toList)⟩

private theorem magnitude_wholeText (digits power : String) :
    (wholeText digits power).magnitude =
      (Nat.ofDigitChars 10 digits.toList 0 * 10 ^ Nat.ofDigitChars 10 power.toList 0 : ℕ) := by
  simp [wholeText, NumberText.magnitude, NumberText.significand, NumberText.digits,
    NumberText.power]

theorem isNumberText_wholeText {digits power : String}
    (hd : digits.toList ≠ [] ∧ digits.toList.all Char.isDigit ∧ digits.toList.head? ≠ some '0')
    (hp : power.toList ≠ [] ∧ power.toList.all Char.isDigit) :
    IsNumberText (digits.toList ++ 'e' :: power.toList) (wholeText digits power) := by
  obtain ⟨hne, hd, hz⟩ := hd
  exact ⟨⟨hne, List.all_eq_true.1 hd⟩, .inr hz, [], _, .absent,
    .bare (.inl rfl) ⟨hp.1, List.all_eq_true.1 hp.2⟩, rfl⟩

private theorem paired_extra (t : NumberText) : (extraRaw t).Paired := by
  simp [Raw.Paired, extraRaw, Raw.Every, Raw.EveryItem, Raw.EveryMember, Json.Whole, letters]

private theorem inRange_extra {t : NumberText} : (extraRaw t).InRange ↔ t.InRange := by
  have hzero : NumberText.InRange ⟨false, ['0'], none, none⟩ := by
    have : NumberText.magnitude ⟨false, ['0'], none, none⟩ = 0 := by
      simp [NumberText.magnitude, NumberText.significand, NumberText.digits, Nat.ofDigitChars]
    rw [NumberText.InRange, this, Decimal.Double.largest, sub_nonneg]
    exact pow_le_pow_right₀ one_le_two (by norm_num)
  simp [Raw.InRange, extraRaw, Raw.Every, Raw.EveryItem, Raw.EveryMember, hzero]

private theorem load_malformed {text : List Char}
    (h : (match load text with
      | .error fault => decide (fault = .json .malformed)
      | .ok _ => false) = true) :
    load text = .error (.json .malformed) := by
  cases hl : load text with
  | error fault =>
    rw [hl] at h
    rw [of_decide_eq_true h]
  | ok program =>
    rw [hl] at h
    cases h

/-- Next to the largest double, a number in range may have no value, and one beyond the range may
have one. -/
theorem conversion_differs_from_range :
    (∃ r, IsText (extraText "1797693134862315708e290") r ∧ r.Paired ∧ r.InRange) ∧
      load (extraText "1797693134862315708e290") = .error (.json .malformed) ∧
      (¬ ∃ r, IsText (extraText "179769313486231581e291") r ∧ r.Paired ∧ r.InRange) ∧
      load (extraText "179769313486231581e291") = .ok [.declareVars {}] := by
  have hlow : IsText (extraText "1797693134862315708e290")
      (extraRaw (wholeText "1797693134862315708" "290")) :=
    isText_extra (isNumberText_wholeText (by decide) (by decide)) rfl
  have hhigh : IsText (extraText "179769313486231581e291")
      (extraRaw (wholeText "179769313486231581" "291")) :=
    isText_extra (isNumberText_wholeText (by decide) (by decide)) rfl
  have hfits : (wholeText "1797693134862315708" "290").InRange := by
    rw [NumberText.InRange, magnitude_wholeText, Decimal.Double.largest, le_sub_iff_add_le]
    exact_mod_cast (by decide +kernel :
      Nat.ofDigitChars 10 "1797693134862315708".toList 0 *
        10 ^ Nat.ofDigitChars 10 "290".toList 0 + 2 ^ 971 ≤ 2 ^ 1024)
  have hbeyond : ¬ (wholeText "179769313486231581" "291").InRange := by
    rw [NumberText.InRange, magnitude_wholeText, Decimal.Double.largest, not_le,
      sub_lt_iff_lt_add]
    exact_mod_cast (by decide +kernel :
      2 ^ 1024 < Nat.ofDigitChars 10 "179769313486231581".toList 0 *
        10 ^ Nat.ofDigitChars 10 "291".toList 0 + 2 ^ 971)
  have hvalue : (wholeText "179769313486231581" "291").integer? = none ∧
      (wholeText "179769313486231581" "291").size?.isSome := by decide +kernel
  refine ⟨⟨_, hlow, paired_extra _, inRange_extra.2 hfits⟩,
    load_malformed (by decide +kernel), ?_, ?_⟩
  · rintro ⟨r, hr, -, hi⟩
    rw [Json.isText_unique hr hhigh, inRange_extra] at hi
    exact hbeyond hi
  · obtain ⟨x, hx⟩ := Option.isSome_iff_exists.1 hvalue.2
    have hv : (extraRaw (wholeText "179769313486231581" "291")).value? =
        some (.array [.object [("kind", .integer 0), ("x", .double x)]]) := by
      have hk : Json.string? (letters "kind") = some "kind" := Json.string?_eq_some_iff.2 rfl
      have hn : Json.string? (letters "x") = some "x" := Json.string?_eq_some_iff.2 rfl
      have hz : NumberText.value ⟨false, ['0'], none, none⟩ = .ok (.integer 0) := by cbv
      have ht : (wholeText "179769313486231581" "291").value = .ok (.double x) := by
        simp only [NumberText.value, hvalue.1, hx]
        rfl
      simp [extraRaw, Raw.value?, Raw.values?, Raw.members?, hk, hn, hz, ht, Except.toOption]
    have hb : blocksOf (.array [.object [("kind", .integer 0), ("x", .double x)]]) =
        .ok [.declareVars {}] := by cbv
    rw [load_of_document (Json.document_iff.2 ⟨_, hhigh, hv⟩), hb]
    rfl

end Extra

end BlockTrace.Program
