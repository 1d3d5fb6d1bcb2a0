import BlockTrace.Json.Reader

/-! The grammar of JSON text, with the value of every text that it derives. Blanks may stand before
every token and at the end. -/
namespace BlockTrace.Json

def Blanks (text : List Char) : Prop :=
  ∀ c ∈ text, isSpace c

/-- Blanks, and after them what satisfies `P`. -/
def Led {α : Type} (P : List Char → α → Prop) (text : List Char) (a : α) : Prop :=
  ∃ blanks core, Blanks blanks ∧ P core a ∧ text = blanks ++ core

section Strings

/-- The escapes of one letter, and what they mean. -/
def shortEscapes : List (Char × Char) :=
  [('"', '"'), ('\\', '\\'), ('/', '/'), ('b', '\x08'), ('f', '\x0c'), ('n', '\n'), ('r', '\r'),
   ('t', '\t')]

def HexUnit (digits : List Char) (unit : Nat) : Prop :=
  digits.length = 4 ∧ hexValue? digits = some unit

/-- What follows the backslash of an escape. Half of a pair of surrogates is no escape. -/
inductive Escape : List Char → Char → Prop
  | short {letter meant : Char} : (letter, meant) ∈ shortEscapes → Escape [letter] meant
  | unit {digits : List Char} {unit : Nat} : HexUnit digits unit →
      unit < 0xD800 ∨ 0xDFFF < unit → Escape ('u' :: digits) (Char.ofNat unit)
  | pair {digits more : List Char} {high low : Nat} :
      HexUnit digits high → 0xD800 ≤ high → high < 0xDC00 →
      HexUnit more low → 0xDC00 ≤ low → low ≤ 0xDFFF →
      Escape ('u' :: (digits ++ '\\' :: 'u' :: more))
        (Char.ofNat ((high - 0xD800) * 0x400 + (low - 0xDC00) + 0x10000))

/-- What stands between the quotes of a string, and its characters. -/
inductive StringBody : List Char → List Char → Prop
  | nil : StringBody [] []
  | plain {c : Char} {text cs : List Char} : c ≠ '"' → c ≠ '\\' → 0x20 ≤ c.toNat →
      StringBody text cs → StringBody (c :: text) (c :: cs)
  | escape {e : List Char} {c : Char} {text cs : List Char} : Escape e c →
      StringBody text cs → StringBody ('\\' :: (e ++ text)) (c :: cs)

def IsString (text : List Char) (s : String) : Prop :=
  ∃ body, StringBody body s.toList ∧ text = '"' :: (body ++ ['"'])

end Strings

section Numbers

def Digits (text : List Char) : Prop :=
  text ≠ [] ∧ ∀ c ∈ text, c.isDigit

inductive IsFraction : List Char → Option (List Char) → Prop
  | absent : IsFraction [] none
  | present {digits : List Char} : Digits digits → IsFraction ('.' :: digits) (some digits)

inductive IsExponent : List Char → Option (Bool × List Char) → Prop
  | absent : IsExponent [] none
  | bare {letter : Char} {digits : List Char} : letter = 'e' ∨ letter = 'E' → Digits digits →
      IsExponent (letter :: digits) (some (false, digits))
  | plus {letter : Char} {digits : List Char} : letter = 'e' ∨ letter = 'E' → Digits digits →
      IsExponent (letter :: '+' :: digits) (some (false, digits))
  | minus {letter : Char} {digits : List Char} : letter = 'e' ∨ letter = 'E' → Digits digits →
      IsExponent (letter :: '-' :: digits) (some (true, digits))

/-- The digits of a number as they are written after its sign. A zero in front stands alone. -/
def IsNumberText (text : List Char) (t : NumberText) : Prop :=
  Digits t.whole ∧ (t.whole.length = 1 ∨ t.whole.head? ≠ some '0') ∧
    ∃ part power, IsFraction part t.fraction ∧ IsExponent power t.exponent ∧
      text = t.whole ++ (part ++ power)

/-- A number that has a value, since its conversion does not overflow. -/
def IsNumber (text : List Char) (v : Value) : Prop :=
  ∃ (t : NumberText) (size : List Char), IsNumberText size t ∧ t.value = .ok v ∧
    text = if t.negative then '-' :: size else size

end Numbers

inductive IsScalar : List Char → Value → Prop
  | null : IsScalar "null".toList .null
  | yes : IsScalar "true".toList (.bool true)
  | no : IsScalar "false".toList (.bool false)
  | number {text : List Char} {v : Value} : IsNumber text v → IsScalar text v
  | string {text : List Char} {s : String} : IsString text s → IsScalar text (.string s)

section Collections
variable {α : Type}

/-- One or more pieces with commas between them, and the closing mark. -/
inductive Row (close : Char) (P : List Char → α → Prop) : List Char → List α → Prop
  | last {text blanks : List Char} {a : α} : P text a → Blanks blanks →
      Row close P (text ++ (blanks ++ [close])) [a]
  | more {text blanks rest : List Char} {a : α} {as : List α} : P text a → Blanks blanks →
      Row close P rest as → Row close P (text ++ (blanks ++ ',' :: rest)) (a :: as)

/-- The pieces of a collection, if there are any, and the closing mark. -/
inductive Enclosed (close : Char) (P : List Char → α → Prop) : List Char → List α → Prop
  | none {blanks : List Char} : Blanks blanks → Enclosed close P (blanks ++ [close]) []
  | some {text : List Char} {as : List α} : Row close P text as → Enclosed close P text as

def IsGiven (P : List Char → α → Prop) (text : List Char) (a : α) : Prop :=
  ∃ blanks value, Blanks blanks ∧ P value a ∧ text = blanks ++ ':' :: value

def IsPair {κ : Type} (K : List Char → κ → Prop) (P : List Char → α → Prop) (text : List Char)
    (pair : κ × α) : Prop :=
  ∃ name given, Led K name pair.1 ∧ IsGiven P given pair.2 ∧ text = name ++ given

def IsMember (P : List Char → α → Prop) : List Char → String × α → Prop :=
  IsPair IsString P

/-- A value in which arrays and objects hold values that satisfy `P`. -/
inductive IsNested (P : List Char → Value → Prop) : List Char → Value → Prop
  | scalar {text : List Char} {v : Value} : IsScalar text v → IsNested P text v
  | array {text : List Char} {items : List Value} : Enclosed ']' P text items →
      IsNested P ('[' :: text) (.array items)
  | object {text : List Char} {members : List (String × Value)} :
      Enclosed '\x7d' (IsMember P) text members →
      IsNested P ('\x7b' :: text) (.object members)

end Collections

/-- A value, with blanks before it, in which at most `depth` arrays and objects stand inside one
another. -/
def IsValue : (depth : Nat) → List Char → Value → Prop
  | 0 => Led IsScalar
  | depth + 1 => Led (IsNested (IsValue depth))

/-- A text that is one value and nothing else. -/
def Document (text : List Char) (v : Value) : Prop :=
  ∃ core blanks, IsValue nestingLimit core v ∧ Blanks blanks ∧ text = core ++ blanks

section Compact
variable {α κ : Type} {P : List Char → α → Prop} {K : List Char → κ → Prop} {a : α} {k : κ}
  {text name : List Char} {close : Char}

theorem blanks_nil : Blanks [] := by
  intro c hc
  cases hc

theorem led_self (h : P text a) : Led P text a :=
  ⟨[], text, blanks_nil, h, rfl⟩

theorem isPair_compact (hn : K name k) (h : P text a) : IsPair K P (name ++ ':' :: text) (k, a) :=
  ⟨name, ':' :: text, led_self hn, ⟨[], text, blanks_nil, h, rfl⟩, rfl⟩

theorem row_last (h : P text a) : Row close P (text ++ [close]) [a] :=
  .last h blanks_nil

theorem row_more {as : List α} {rest : List Char} (h : P text a) (hr : Row close P rest as) :
    Row close P (text ++ ',' :: rest) (a :: as) :=
  .more h blanks_nil hr

end Compact

end BlockTrace.Json
