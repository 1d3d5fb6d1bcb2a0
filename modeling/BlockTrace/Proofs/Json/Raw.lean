import BlockTrace.Proofs.Json.Documents
import BlockTrace.Proofs.Json.Range
import Mathlib

/-! JSON text as it is written, whether or not it has a value. A number may be of any size, and half
of a pair of surrogates may stand alone. The texts with a value are those in which every number can
be converted and no half stands alone. -/
namespace BlockTrace.Json

/-- A character of a string, or half of a pair of surrogates without the other half. -/
inductive Letter
  | char (c : Char)
  | half (unit : Nat)
  deriving DecidableEq, Repr

/-- A JSON value whose numbers and strings are kept as they are written. -/
inductive Raw
  | null
  | bool (value : Bool)
  | number (text : NumberText)
  | string (letters : List Letter)
  | array (items : List Raw)
  | object (members : List (List Letter × Raw))

section Grammar

/-- The text starts with an escaped second half of a pair. -/
def StartsLow (text : List Char) : Prop :=
  ∃ digits low rest, HexUnit digits low ∧ 0xDC00 ≤ low ∧ low ≤ 0xDFFF ∧
    text = '\\' :: 'u' :: (digits ++ rest)

/-- What stands between the quotes of a string, and its letters. A first half stands alone if no
second half follows it. -/
inductive RawBody : List Char → List Letter → Prop
  | nil : RawBody [] []
  | plain {c : Char} {text : List Char} {ls : List Letter} : c ≠ '"' → c ≠ '\\' → 0x20 ≤ c.toNat →
      RawBody text ls → RawBody (c :: text) (.char c :: ls)
  | escape {e : List Char} {c : Char} {text : List Char} {ls : List Letter} : Escape e c →
      RawBody text ls → RawBody ('\\' :: (e ++ text)) (.char c :: ls)
  | half {digits : List Char} {unit : Nat} {text : List Char} {ls : List Letter} :
      HexUnit digits unit → 0xD800 ≤ unit → unit ≤ 0xDFFF → (unit < 0xDC00 → ¬ StartsLow text) →
      RawBody text ls → RawBody ('\\' :: 'u' :: (digits ++ text)) (.half unit :: ls)

def IsRawString (text : List Char) (ls : List Letter) : Prop :=
  ∃ body, RawBody body ls ∧ text = '"' :: (body ++ ['"'])

def IsRawNumber (text : List Char) (t : NumberText) : Prop :=
  ∃ size, IsNumberText size t ∧ text = if t.negative then '-' :: size else size

inductive IsRawScalar : List Char → Raw → Prop
  | null : IsRawScalar "null".toList .null
  | yes : IsRawScalar "true".toList (.bool true)
  | no : IsRawScalar "false".toList (.bool false)
  | number {text : List Char} {t : NumberText} : IsRawNumber text t → IsRawScalar text (.number t)
  | string {text : List Char} {ls : List Letter} :
      IsRawString text ls → IsRawScalar text (.string ls)

inductive IsRawNested (P : List Char → Raw → Prop) : List Char → Raw → Prop
  | scalar {text : List Char} {r : Raw} : IsRawScalar text r → IsRawNested P text r
  | array {text : List Char} {items : List Raw} : Enclosed ']' P text items →
      IsRawNested P ('[' :: text) (.array items)
  | object {text : List Char} {members : List (List Letter × Raw)} :
      Enclosed '\x7d' (IsPair IsRawString P) text members →
      IsRawNested P ('\x7b' :: text) (.object members)

def IsRaw : (depth : Nat) → List Char → Raw → Prop
  | 0 => Led IsRawScalar
  | depth + 1 => Led (IsRawNested (IsRaw depth))

/-- A JSON text: one value and nothing else, in which at most `nestingLimit` arrays and objects
stand inside one another. -/
def IsText (text : List Char) (r : Raw) : Prop :=
  ∃ core blanks, IsRaw nestingLimit core r ∧ Blanks blanks ∧ text = core ++ blanks

end Grammar

section Compact
variable {text size : List Char} {r : Raw} {d : Nat}

theorem isRaw_scalar (h : IsRawScalar text r) : IsRaw d text r := by
  cases d with
  | zero => exact led_self h
  | succ d => exact led_self (.scalar h)

theorem isNumberText_digit (c : Char) (h : c.isDigit) :
    IsNumberText [c] ⟨false, [c], none, none⟩ :=
  ⟨⟨by simp, by simpa using h⟩, .inl rfl, [], [], .absent, .absent, rfl⟩

theorem isRaw_number {t : NumberText} (h : IsNumberText size t) (hn : t.negative = false) :
    IsRaw d size (.number t) :=
  isRaw_scalar (.number ⟨size, h, by rw [hn]; rfl⟩)

theorem isRaw_array {items : List Raw} (h : Enclosed ']' (IsRaw d) text items) :
    IsRaw (d + 1) ('[' :: text) (.array items) :=
  led_self (.array h)

theorem isRaw_object {members : List (List Letter × Raw)}
    (h : Enclosed '\x7d' (IsPair IsRawString (IsRaw d)) text members) :
    IsRaw (d + 1) ('\x7b' :: text) (.object members) :=
  led_self (.object h)

theorem isText_of_isRaw (h : IsRaw nestingLimit text r) : IsText text r :=
  ⟨text, [], h, blanks_nil, (List.append_nil text).symm⟩

end Compact

section Values

/-- The letters of a string without a half that stands alone. -/
def letters (s : String) : List Letter :=
  s.toList.map .char

def Letter.char? : Letter → Option Char
  | char c => some c
  | half _ => none

/-- The string of the letters, if no half stands alone. -/
def string? (ls : List Letter) : Option String :=
  (ls.mapM Letter.char?).map String.ofList

mutual

/-- The value that is written, if there is one. -/
def Raw.value? : Raw → Option Value
  | null => some .null
  | bool value => some (.bool value)
  | number text => text.value.toOption
  | string ls => (string? ls).map .string
  | array items => (values? items).map .array
  | object members => (members? members).map .object

def Raw.values? : List Raw → Option (List Value)
  | [] => some []
  | item :: items => do return (← item.value?) :: (← values? items)

def Raw.members? : List (List Letter × Raw) → Option (List (String × Value))
  | [] => some []
  | (name, r) :: members => do return (← string? name, ← r.value?) :: (← members? members)

end

mutual

/-- Every number satisfies `N`, and every string and name `S`. -/
def Raw.Every (N : NumberText → Prop) (S : List Letter → Prop) : Raw → Prop
  | null => True
  | bool _ => True
  | number text => N text
  | string ls => S ls
  | array items => EveryItem N S items
  | object members => EveryMember N S members

def Raw.EveryItem (N : NumberText → Prop) (S : List Letter → Prop) : List Raw → Prop
  | [] => True
  | item :: items => item.Every N S ∧ EveryItem N S items

def Raw.EveryMember (N : NumberText → Prop) (S : List Letter → Prop) :
    List (List Letter × Raw) → Prop
  | [] => True
  | (name, r) :: members => S name ∧ r.Every N S ∧ EveryMember N S members

end

/-- No letter is half of a pair of surrogates. -/
def Whole (ls : List Letter) : Prop :=
  ∀ unit, .half unit ∉ ls

/-- No half of a pair of surrogates stands alone. -/
def Raw.Paired (r : Raw) : Prop :=
  r.Every (fun _ => True) Whole

/-- Every number has a value. -/
def Raw.Converts (r : Raw) : Prop :=
  r.Every NumberText.Converts fun _ => True

/-- No number is beyond the largest double. -/
def Raw.InRange (r : Raw) : Prop :=
  r.Every NumberText.InRange fun _ => True

end Values

/-- A string of characters that need no escape. -/
theorem isRawString_plain {s : String}
    (h : s.toList.all fun c => c ≠ '"' && c ≠ '\\' && decide (0x20 ≤ c.toNat)) :
    IsRawString ('"' :: (s.toList ++ ['"'])) (letters s) := by
  refine ⟨s.toList, ?_, rfl⟩
  rw [letters]
  generalize s.toList = cs at h
  induction cs with
  | nil => exact .nil
  | cons c cs ih =>
    simp only [List.all_cons, Bool.and_eq_true, decide_eq_true_eq] at h
    obtain ⟨⟨⟨hq, hs⟩, hc⟩, hr⟩ := h
    exact .plain (by simpa using hq) (by simpa using hs) hc (ih hr)

section Images
variable {α β κ κ' : Type} {P : List Char → α → Prop} {Q : List Char → β → Prop} {R : α → β → Prop}

/-- What `Q` derives from a text is what `R` makes of what `P` derives from it. -/
def Image (P : List Char → α → Prop) (Q : List Char → β → Prop) (R : α → β → Prop) : Prop :=
  ∀ text b, Q text b ↔ ∃ a, P text a ∧ R a b

theorem Image.led (h : Image P Q R) : Image (Led P) (Led Q) R := by
  intro text b
  constructor
  · rintro ⟨blanks, core, hb, hq, rfl⟩
    obtain ⟨a, hp, hr⟩ := (h core b).1 hq
    exact ⟨a, ⟨blanks, core, hb, hp, rfl⟩, hr⟩
  · rintro ⟨a, ⟨blanks, core, hb, hp, rfl⟩, hr⟩
    exact ⟨blanks, core, hb, (h core b).2 ⟨a, hp, hr⟩, rfl⟩

theorem Image.pair {K : List Char → κ → Prop} {K' : List Char → κ' → Prop} {S : κ → κ' → Prop}
    (hk : Image K K' S) (h : Image P Q R) :
    Image (IsPair K P) (IsPair K' Q) fun a b => S a.1 b.1 ∧ R a.2 b.2 := by
  intro text b
  constructor
  · rintro ⟨name, _, hn, ⟨blanks, value, hb, hv, rfl⟩, rfl⟩
    obtain ⟨key, hp, hs⟩ := (hk.led name b.1).1 hn
    obtain ⟨a, hv, hr⟩ := (h value b.2).1 hv
    exact ⟨(key, a), ⟨name, _, hp, ⟨blanks, value, hb, hv, rfl⟩, rfl⟩, hs, hr⟩
  · rintro ⟨a, ⟨name, _, hn, ⟨blanks, value, hb, hv, rfl⟩, rfl⟩, hs, hr⟩
    exact ⟨name, _, (hk.led name b.1).2 ⟨a.1, hn, hs⟩,
      ⟨blanks, value, hb, (h value b.2).2 ⟨a.2, hv, hr⟩, rfl⟩, rfl⟩

theorem Image.row (h : Image P Q R) (close : Char) :
    Image (Row close P) (Row close Q) (List.Forall₂ R) := by
  intro text bs
  constructor
  · intro hq
    induction hq with
    | last hq hb =>
      obtain ⟨a, hp, hr⟩ := (h _ _).1 hq
      exact ⟨[a], .last hp hb, .cons hr .nil⟩
    | more hq hb _ ih =>
      obtain ⟨a, hp, hr⟩ := (h _ _).1 hq
      obtain ⟨as, hrow, hrs⟩ := ih
      exact ⟨a :: as, .more hp hb hrow, .cons hr hrs⟩
  · rintro ⟨as, hp, hr⟩
    induction hp generalizing bs with
    | last hp hb =>
      cases hr with
      | cons hr hn =>
        cases hn
        exact .last ((h _ _).2 ⟨_, hp, hr⟩) hb
    | more hp hb _ ih =>
      cases hr with
      | cons hr hrs => exact .more ((h _ _).2 ⟨_, hp, hr⟩) hb (ih _ hrs)

theorem Image.enclosed (h : Image P Q R) (close : Char) :
    Image (Enclosed close P) (Enclosed close Q) (List.Forall₂ R) := by
  intro text bs
  constructor
  · intro hq
    cases hq with
    | none hb => exact ⟨[], .none hb, .nil⟩
    | some hrow =>
      obtain ⟨as, hp, hr⟩ := (h.row close _ _).1 hrow
      exact ⟨as, .some hp, hr⟩
  · rintro ⟨as, hp, hr⟩
    cases hp with
    | none hb =>
      cases hr
      exact .none hb
    | some hrow => exact .some ((h.row close _ _).2 ⟨as, hrow, hr⟩)

end Images

section Meaning
variable {ls : List Letter} {s : String} {cs : List Char} {text : List Char} {v : Value} {r : Raw}

theorem toOption_eq_some_iff {ε α : Type} {x : Except ε α} {a : α} :
    x.toOption = some a ↔ x = .ok a := by
  cases x <;> simp [Except.toOption]

private theorem mapM_char?_eq_some_iff : ls.mapM Letter.char? = some cs ↔ ls = cs.map .char := by
  induction ls generalizing cs with
  | nil => simp [eq_comm]
  | cons l ls ih =>
    cases l with
    | char c => cases cs <;> simp [Letter.char?, Option.bind_eq_some_iff, ih, and_comm]
    | half unit => cases cs <;> simp [Letter.char?]

theorem string?_eq_some_iff : string? ls = some s ↔ ls = letters s := by
  rw [string?, Option.map_eq_some_iff, letters]
  simp only [mapM_char?_eq_some_iff]
  constructor
  · rintro ⟨cs, rfl, rfl⟩
    rw [String.toList_ofList]
  · rintro rfl
    exact ⟨s.toList, rfl, String.ofList_toList⟩

theorem letters_injective : Function.Injective letters := by
  intro s s' h
  exact String.toList_inj.1 (List.map_injective_iff.2 (fun _ _ => Letter.char.inj) h)

theorem values?_eq_some_iff {items : List Raw} {vs : List Value} :
    Raw.values? items = some vs ↔ List.Forall₂ (fun r v => r.value? = some v) items vs := by
  induction items generalizing vs with
  | nil => simp [Raw.values?, eq_comm]
  | cons item items ih =>
    simp [Raw.values?, Option.bind_eq_some_iff, List.forall₂_cons_left_iff, ih, eq_comm (a := vs)]

theorem members?_eq_some_iff {ms : List (List Letter × Raw)} {vs : List (String × Value)} :
    Raw.members? ms = some vs ↔
      List.Forall₂ (fun m n => string? m.1 = some n.1 ∧ m.2.value? = some n.2) ms vs := by
  induction ms generalizing vs with
  | nil => simp [Raw.members?, eq_comm]
  | cons m ms ih =>
    obtain ⟨name, r⟩ := m
    simp [Raw.members?, Option.bind_eq_some_iff, List.forall₂_cons_left_iff, ih, and_assoc,
      eq_comm (a := vs)]

theorem image_stringBody : Image RawBody StringBody fun ls cs => ls = cs.map .char := by
  intro text cs
  constructor
  · intro h
    refine ⟨_, ?_, rfl⟩
    induction h with
    | nil => exact .nil
    | plain hq hs hc _ ih => exact .plain hq hs hc ih
    | escape he _ ih => exact .escape he ih
  · rintro ⟨ls, h, rfl⟩
    generalize hl : cs.map Letter.char = ls at h
    induction h generalizing cs with
    | nil =>
      obtain rfl := List.map_eq_nil_iff.1 hl
      exact .nil
    | plain hq hs hc _ ih =>
      obtain ⟨c, cs, rfl, he, hr⟩ := List.map_eq_cons_iff.1 hl
      cases he
      exact .plain hq hs hc (ih _ hr)
    | escape he _ ih =>
      obtain ⟨c, cs, rfl, hc, hr⟩ := List.map_eq_cons_iff.1 hl
      cases hc
      exact .escape he (ih _ hr)
    | half =>
      obtain ⟨c, cs, rfl, he, -⟩ := List.map_eq_cons_iff.1 hl
      cases he

theorem image_isString : Image IsRawString IsString fun ls s => string? ls = some s := by
  intro text s
  simp only [string?_eq_some_iff]
  constructor
  · rintro ⟨body, hb, rfl⟩
    obtain ⟨ls, hl, rfl⟩ := (image_stringBody _ _).1 hb
    exact ⟨_, ⟨body, hl, rfl⟩, rfl⟩
  · rintro ⟨_, ⟨body, hb, rfl⟩, rfl⟩
    exact ⟨body, (image_stringBody _ _).2 ⟨_, hb, rfl⟩, rfl⟩

theorem image_isScalar : Image IsRawScalar IsScalar fun r v => r.value? = some v := by
  intro text v
  constructor
  · intro h
    cases h with
    | null => exact ⟨_, .null, rfl⟩
    | yes => exact ⟨_, .yes, rfl⟩
    | no => exact ⟨_, .no, rfl⟩
    | number h =>
      obtain ⟨t, size, hs, hv, rfl⟩ := h
      exact ⟨.number t, .number ⟨size, hs, rfl⟩, toOption_eq_some_iff.2 hv⟩
    | string h =>
      obtain ⟨ls, hl, hs⟩ := (image_isString _ _).1 h
      exact ⟨.string ls, .string hl, by simp [Raw.value?, hs]⟩
  · rintro ⟨r, h, hv⟩
    cases h with
    | null =>
      cases hv
      exact .null
    | yes =>
      cases hv
      exact .yes
    | no =>
      cases hv
      exact .no
    | number h =>
      obtain ⟨size, hs, rfl⟩ := h
      exact .number ⟨_, size, hs, toOption_eq_some_iff.1 hv, rfl⟩
    | string h =>
      obtain ⟨s, hs, rfl⟩ := Option.map_eq_some_iff.1 hv
      exact .string ((image_isString _ _).2 ⟨_, h, hs⟩)

theorem image_isValue (depth : Nat) :
    Image (IsRaw depth) (IsValue depth) fun r v => r.value? = some v := by
  induction depth with
  | zero => exact image_isScalar.led
  | succ depth ih =>
    refine Image.led fun text v => ⟨fun h => ?_, ?_⟩
    · cases h with
      | scalar h =>
        obtain ⟨r, hr, hv⟩ := (image_isScalar _ _).1 h
        exact ⟨r, .scalar hr, hv⟩
      | array h =>
        obtain ⟨items, hi, hv⟩ := (ih.enclosed _ _ _).1 h
        exact ⟨.array items, .array hi, by simp [Raw.value?, values?_eq_some_iff.2 hv]⟩
      | object h =>
        obtain ⟨ms, hm, hv⟩ := ((image_isString.pair ih).enclosed _ _ _).1 h
        exact ⟨.object ms, .object hm, by simp [Raw.value?, members?_eq_some_iff.2 hv]⟩
    · rintro ⟨r, h, hv⟩
      cases h with
      | scalar h => exact .scalar ((image_isScalar _ _).2 ⟨r, h, hv⟩)
      | array h =>
        obtain ⟨vs, hs, rfl⟩ := Option.map_eq_some_iff.1 hv
        exact .array ((ih.enclosed _ _ _).2 ⟨_, h, values?_eq_some_iff.1 hs⟩)
      | object h =>
        obtain ⟨vs, hs, rfl⟩ := Option.map_eq_some_iff.1 hv
        exact .object (((image_isString.pair ih).enclosed _ _ _).2
          ⟨_, h, members?_eq_some_iff.1 hs⟩)

/-- A text has a value exactly if what is written has one. -/
theorem document_iff : Document text v ↔ ∃ r, IsText text r ∧ r.value? = some v := by
  constructor
  · rintro ⟨core, blanks, hc, hb, rfl⟩
    obtain ⟨r, hr, hv⟩ := (image_isValue _ _ _).1 hc
    exact ⟨r, ⟨core, blanks, hr, hb, rfl⟩, hv⟩
  · rintro ⟨r, ⟨core, blanks, hr, hb, rfl⟩, hv⟩
    exact ⟨core, blanks, (image_isValue _ _ _).2 ⟨r, hr, hv⟩, hb, rfl⟩

end Meaning

section Readable
variable {N : NumberText → Prop} {S : List Letter → Prop}

mutual

theorem every_iff (r : Raw) :
    r.Every N S ↔ r.Every (fun _ => True) S ∧ r.Every N fun _ => True := by
  match r with
  | .null => simp [Raw.Every]
  | .bool _ => simp [Raw.Every]
  | .number _ => simp [Raw.Every]
  | .string _ => simp [Raw.Every]
  | .array items => simpa [Raw.Every] using everyItem_iff items
  | .object members => simpa [Raw.Every] using everyMember_iff members

theorem everyItem_iff (items : List Raw) :
    Raw.EveryItem N S items ↔
      Raw.EveryItem (fun _ => True) S items ∧ Raw.EveryItem N (fun _ => True) items := by
  match items with
  | [] => simp [Raw.EveryItem]
  | item :: items =>
    rw [Raw.EveryItem, Raw.EveryItem, Raw.EveryItem, every_iff item, everyItem_iff items]
    tauto

theorem everyMember_iff (members : List (List Letter × Raw)) :
    Raw.EveryMember N S members ↔
      Raw.EveryMember (fun _ => True) S members ∧
        Raw.EveryMember N (fun _ => True) members := by
  match members with
  | [] => simp [Raw.EveryMember]
  | (name, r) :: members =>
    rw [Raw.EveryMember, Raw.EveryMember, Raw.EveryMember, every_iff r, everyMember_iff members]
    tauto

end

theorem exists_string?_iff {ls : List Letter} : (∃ s, string? ls = some s) ↔ Whole ls := by
  simp only [string?_eq_some_iff]
  constructor
  · rintro ⟨s, rfl⟩ unit hu
    simp [letters] at hu
  · intro h
    induction ls with
    | nil => exact ⟨"", rfl⟩
    | cons l ls ih =>
      obtain ⟨s, rfl⟩ := ih fun unit hu => h unit (List.mem_cons_of_mem _ hu)
      cases l with
      | char c => exact ⟨String.ofList (c :: s.toList), by simp [letters]⟩
      | half unit => exact absurd List.mem_cons_self (h unit)

mutual

theorem exists_value?_iff_every (r : Raw) :
    (∃ v, r.value? = some v) ↔ r.Every NumberText.Converts Whole := by
  match r with
  | .null => simp [Raw.value?, Raw.Every]
  | .bool _ => simp [Raw.value?, Raw.Every]
  | .number t => simp [Raw.value?, Raw.Every, toOption_eq_some_iff, NumberText.Converts]
  | .string ls =>
    rw [Raw.Every, ← exists_string?_iff]
    simp [Raw.value?]
  | .array items =>
    rw [Raw.Every, ← exists_values?_iff items]
    simp [Raw.value?]
  | .object members =>
    rw [Raw.Every, ← exists_members?_iff members]
    simp [Raw.value?]

theorem exists_values?_iff (items : List Raw) :
    (∃ vs, Raw.values? items = some vs) ↔ Raw.EveryItem NumberText.Converts Whole items := by
  match items with
  | [] => simp [Raw.values?, Raw.EveryItem]
  | item :: items =>
    rw [Raw.EveryItem, ← exists_value?_iff_every item, ← exists_values?_iff items]
    simp [Raw.values?, Option.bind_eq_some_iff]

theorem exists_members?_iff (members : List (List Letter × Raw)) :
    (∃ vs, Raw.members? members = some vs) ↔
      Raw.EveryMember NumberText.Converts Whole members := by
  match members with
  | [] => simp [Raw.members?, Raw.EveryMember]
  | (name, r) :: members =>
    rw [Raw.EveryMember, ← exists_string?_iff, ← exists_value?_iff_every r,
      ← exists_members?_iff members]
    simp [Raw.members?, Option.bind_eq_some_iff]

end

/-- What is written has a value exactly if no half stands alone and every number has a value. -/
theorem exists_value?_iff {r : Raw} : (∃ v, r.value? = some v) ↔ r.Paired ∧ r.Converts := by
  rw [exists_value?_iff_every, every_iff]
  rfl

end Readable

section Numbers
variable {N : NumberText → Prop} {text : List Char} {r : Raw}

private theorem everyItem_of_mem {items : List Raw} (h : ∀ r ∈ items, r.Every N fun _ => True) :
    Raw.EveryItem N (fun _ => True) items := by
  induction items with
  | nil => exact trivial
  | cons r items ih =>
    rw [List.forall_mem_cons] at h
    exact ⟨h.1, ih h.2⟩

private theorem everyMember_of_mem {members : List (List Letter × Raw)}
    (h : ∀ m ∈ members, m.2.Every N fun _ => True) :
    Raw.EveryMember N (fun _ => True) members := by
  induction members with
  | nil => exact trivial
  | cons m members ih =>
    rw [List.forall_mem_cons] at h
    exact ⟨trivial, h.1, ih h.2⟩

/-- What holds of every number that can be written holds of the numbers of a text. -/
theorem every_of_isRaw (hN : ∀ size t, IsNumberText size t → N t) {depth : Nat}
    (h : IsRaw depth text r) : r.Every N fun _ => True := by
  have hs {core : List Char} {r : Raw} (h : IsRawScalar core r) : r.Every N fun _ => True := by
    cases h with
    | number h =>
      obtain ⟨size, hs, -⟩ := h
      exact hN size _ hs
    | _ => trivial
  induction depth generalizing text r with
  | zero =>
    obtain ⟨-, core, -, hc, -⟩ := h
    exact hs hc
  | succ depth ih =>
    obtain ⟨-, core, -, hc, -⟩ := h
    cases hc with
    | scalar h => exact hs h
    | array h =>
      refine everyItem_of_mem fun r hr => ?_
      obtain ⟨piece, hp⟩ := h.exists_text r hr
      exact ih hp
    | object h =>
      refine everyMember_of_mem fun m hm => ?_
      obtain ⟨_, _, _, -, ⟨_, piece, -, hp, -⟩, -⟩ := h.exists_text m hm
      exact ih hp

/-- Except next to the largest double, the exact size of the number decides whether it has a value,
if it has no more digits than `2 * 10 ^ 9`. -/
def NumberText.Decided (t : NumberText) : Prop :=
  t.digits.length ≤ 2 * 10 ^ 9 →
    (t.magnitude ≤ 2 ^ 1024 - 2 ^ 973 → t.Converts) ∧
      (2 ^ 1024 + 2 ^ 973 ≤ t.magnitude → ¬ t.Converts)

theorem every_decided (h : IsText text r) : r.Every NumberText.Decided fun _ => True := by
  obtain ⟨core, -, hc, -, -⟩ := h
  exact every_of_isRaw (fun _ _ => NumberText.converts_range) hc

end Numbers

end BlockTrace.Json
