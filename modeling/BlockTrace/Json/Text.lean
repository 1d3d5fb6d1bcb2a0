import BlockTrace.Text.Numeral

/-! The pieces that JSON text is made of: blanks, words, digits and strings. -/
namespace BlockTrace.Json

/-- Why a text is not JSON. -/
inductive Fault
  -- It breaks a rule of the format.
  | malformed
  -- It ends too early.
  | truncated
  deriving DecidableEq, Repr

/-- A value, and what is left of the text: fewer than `bound` characters. -/
structure Parsed (α : Type) (bound : Nat) where
  value : α
  rest : List Char
  shorter : rest.length < bound

namespace Parsed

def widen {α : Type} {m n : Nat} (r : Parsed α m) (h : m ≤ n) : Parsed α n :=
  ⟨r.value, r.rest, Nat.lt_of_lt_of_le r.shorter h⟩

def before {α : Type} (value : α) (text : List Char) : Parsed α (text.length + 1) :=
  ⟨value, text, Nat.lt_succ_self text.length⟩

def relax {α : Type} {n : Nat} (r : Parsed α n) : Parsed α (n + 1) :=
  r.widen (Nat.le_succ n)

def past {α : Type} {m n : Nat} (r : Parsed α m) (h : m < n) : Parsed α n :=
  r.widen (Nat.le_of_lt h)

def map {α β : Type} {n : Nat} (f : α → β) (r : Parsed α n) : Parsed β n :=
  ⟨f r.value, r.rest, r.shorter⟩

end Parsed

/-- Reads a value from the front of a text and takes at least one character. -/
abbrev Reader (ε α : Type) := (text : List Char) → Except ε (Parsed α text.length)

def isSpace (c : Char) : Bool :=
  c = ' ' || c = '\t' || c = '\n' || c = '\r'

def skipSpace (text : List Char) : List Char :=
  text.dropWhile isSpace

theorem skipSpace_le (text : List Char) : (skipSpace text).length ≤ text.length :=
  (List.dropWhile_sublist isSpace).length_le

theorem skipSpace_shorter {text rest : List Char} {c : Char} (h : skipSpace text = c :: rest) :
    rest.length < text.length := by
  have := skipSpace_le text
  simp only [h, List.length_cons] at this
  omega

def expect : (word text : List Char) → Except Fault { rest : List Char // rest.length ≤ text.length }
  | [], text => .ok ⟨text, Nat.le_refl _⟩
  | _ :: _, [] => .error .truncated
  | w :: word, c :: text =>
    if w = c then (expect word text).map fun r => ⟨r.1, Nat.le_succ_of_le r.2⟩
    else .error .malformed

def someDigits : Reader Fault (List Char)
  | [] => .error .truncated
  | c :: rest =>
    if c.isDigit then
      .ok ⟨c :: rest.takeWhile Char.isDigit, rest.dropWhile Char.isDigit,
        Nat.lt_succ_of_le (List.dropWhile_sublist _).length_le⟩
    else .error .malformed

def hexValue? (digits : List Char) : Option Nat :=
  digits.foldl (fun value c => value.bind fun v => (digit? c).map (16 * v + ·)) (some 0)
where
  digit? (c : Char) : Option Nat :=
    if c.isDigit then some (Text.digitValue c)
    else if 'a' ≤ c ∧ c ≤ 'f' then some (c.toNat - 'a'.toNat + 10)
    else if 'A' ≤ c ∧ c ≤ 'F' then some (c.toNat - 'A'.toNat + 10)
    else none

/-- Reads the four digits of an escape. The text is truncated if fewer than four bytes of it are
left, whatever they are. -/
def hexEscape : Reader Fault Nat
  | a :: b :: c :: d :: rest =>
    match hexValue? [a, b, c, d] with
    | some value => .ok ⟨value, rest, by simp only [List.length_cons]; omega⟩
    | none => .error .malformed
  | text => .error (if (String.ofList text).utf8ByteSize < 4 then .truncated else .malformed)

/-- Reads the second half of a pair of surrogates, whose first half is `high`. -/
def lowSurrogate (high : Nat) : Reader Fault Char
  | '\\' :: 'u' :: text =>
    match hexEscape text with
    | .error fault => .error fault
    | .ok ⟨low, rest, h⟩ =>
      if 0xDC00 ≤ low ∧ low ≤ 0xDFFF then
        .ok ⟨Char.ofNat ((high - 0xD800) * 0x400 + (low - 0xDC00) + 0x10000), rest,
          by simp only [List.length_cons]; omega⟩
      else .error .malformed
  | ['\\'] => .error .truncated
  | [] => .error .truncated
  | _ => .error .malformed

/-- Reads what follows the backslash of an escape. -/
def escape : Reader Fault Char
  | [] => .error .truncated
  | c :: rest =>
    let plain (meant : Char) : Except Fault (Parsed Char (c :: rest).length) :=
      .ok (Parsed.before meant rest)
    match c with
    | '"' => plain '"'
    | '\\' => plain '\\'
    | '/' => plain '/'
    | 'b' => plain '\x08'
    | 'f' => plain '\x0c'
    | 'n' => plain '\n'
    | 'r' => plain '\r'
    | 't' => plain '\t'
    | 'u' =>
      match hexEscape rest with
      | .error fault => .error fault
      | .ok ⟨unit, after, h⟩ =>
        if 0xDC00 ≤ unit ∧ unit ≤ 0xDFFF then .error .malformed
        else if 0xD800 ≤ unit ∧ unit ≤ 0xDBFF then
          (lowSurrogate unit after).map fun r => (r.past h).relax
        else .ok ⟨Char.ofNat unit, after, by simp only [List.length_cons]; omega⟩
    | _ => .error .malformed

/-- Reads the rest of a string whose characters so far are `seen`, last first. -/
def stringFrom (bound : Nat) (seen : List Char) (text : List Char) (h : text.length ≤ bound) :
    Except Fault (Parsed String bound) :=
  match text with
  | [] => .error .truncated
  | c :: rest =>
    if c = '"' then .ok ⟨String.ofList seen.reverse, rest, h⟩
    else if c = '\\' then
      match escape rest with
      | .error fault => .error fault
      | .ok ⟨meant, after, ha⟩ =>
        stringFrom bound (meant :: seen) after (by simp only [List.length_cons] at h; omega)
    else if c.toNat < 0x20 then .error .malformed
    else stringFrom bound (c :: seen) rest (by simp only [List.length_cons] at h; omega)
termination_by text.length

def string : Reader Fault String := fun text =>
  stringFrom text.length [] text (Nat.le_refl _)

end BlockTrace.Json
