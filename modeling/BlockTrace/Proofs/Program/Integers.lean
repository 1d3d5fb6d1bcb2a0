import BlockTrace.Program.Parameters
import BlockTrace.Proofs.Expression.Accepted
import BlockTrace.Proofs.Json.Grammar
import Mathlib

/-! Integers that are written out, as parameters and as literals of expressions. A parameter is read
exactly, or not at all if it does not fit into 32 bits; a literal is read whatever its length, and
wraps. Where both give a value it is the same. -/
namespace BlockTrace.Text
open Expression (decimal decimal_append_singleton)
open Json (Digits)

/-- The text is an integer in decimal: at most one sign, and then digits, with zeros in front or
without. -/
inductive Numeral : List Char → Int → Prop
  | bare {digits : List Char} : Digits digits → Numeral digits (decimal digits)
  | plus {digits : List Char} : Digits digits → Numeral ('+' :: digits) (decimal digits)
  | minus {digits : List Char} : Digits digits → Numeral ('-' :: digits) (-decimal digits)

section Magnitude
variable {limit value m : Nat} {overflow : NumeralFault} {digits : List Char}

theorem decimal_eq_ofDigitChars (digits : List Char) :
    decimal digits = Nat.ofDigitChars 10 digits 0 := by
  induction digits using List.reverseRecOn with
  | nil => rfl
  | append_singleton digits c ih =>
    rw [decimal_append_singleton, Nat.ofDigitChars_append, ← ih, Nat.ofDigitChars_cons,
      Nat.ofDigitChars_nil, Nat.mul_comm, digitValue]

/-- Further digits never make a value smaller. -/
theorem le_ofDigitChars (digits : List Char) (value : Nat) :
    value ≤ Nat.ofDigitChars 10 digits value := by
  induction digits generalizing value with
  | nil => exact Nat.le_refl _
  | cons c rest ih =>
    rw [Nat.ofDigitChars_cons]
    exact Nat.le_trans (by omega) (ih _)

/-- The check at every digit is a check of the whole value. -/
theorem magnitude_eq_ok_iff (hv : value ≤ limit) :
    magnitude limit overflow value digits = .ok m ↔
      (∀ c ∈ digits, c.isDigit) ∧ Nat.ofDigitChars 10 digits value = m ∧ m ≤ limit := by
  induction digits generalizing value with
  | nil =>
    rw [magnitude, Nat.ofDigitChars_nil, Except.ok.injEq]
    constructor
    · rintro rfl
      exact ⟨nofun, rfl, hv⟩
    · exact fun h => h.2.1
  | cons c rest ih =>
    have hn : value * 10 + digitValue c = 10 * value + (c.toNat - '0'.toNat) := by
      rw [Nat.mul_comm, digitValue]
    rw [magnitude, List.forall_mem_cons, Nat.ofDigitChars_cons, ← hn]
    by_cases hc : c.isDigit
    · by_cases hl : value * 10 + digitValue c ≤ limit
      · rw [if_pos hc, if_pos hl, ih hl, and_iff_right hc]
      · rw [if_pos hc, if_neg hl]
        constructor
        · intro h
          cases h
        · -- A value past the limit stays past it, whatever digits follow.
          rintro ⟨-, rfl, hm⟩
          exact absurd (Nat.le_trans (le_ofDigitChars rest _) hm) hl
    · rw [if_neg hc]
      constructor
      · intro h
        cases h
      · exact fun h => absurd h.1.1 hc

/-- Digits that are read up to a limit and counted as `g` says. The limit is that of 32 bits. -/
theorem map_magnitude_eq_ok_iff {g : Nat → Int} {n : Int32} (hne : digits ≠ [])
    (hg : ∀ m, m ≤ limit ↔ -2 ^ 31 ≤ g m ∧ g m < 2 ^ 31) :
    (magnitude limit overflow 0 digits).map (fun m => Int32.ofInt (g m)) = .ok n ↔
      Digits digits ∧ g (decimal digits) = n.toInt := by
  rw [map_eq_ok_iff, decimal_eq_ofDigitChars]
  constructor
  · rintro ⟨m, hm, rfl⟩
    obtain ⟨hd, rfl, hl⟩ := (magnitude_eq_ok_iff (Nat.zero_le _)).1 hm
    obtain ⟨hlow, hhigh⟩ := (hg _).1 hl
    exact ⟨⟨hne, hd⟩, (Int32.toInt_ofInt_of_le hlow hhigh).symm⟩
  · rintro ⟨hd, hn⟩
    have hl := (hg (Nat.ofDigitChars 10 digits 0)).2 (hn ▸ ⟨n.le_toInt, n.toInt_lt⟩)
    refine ⟨_, (magnitude_eq_ok_iff (Nat.zero_le _)).2 ⟨hd.2, rfl, hl⟩, ?_⟩
    rw [hn, Int32.ofInt_toInt]

end Magnitude

section Signed
variable {text digits : List Char} {k : Int} {n : Int32}

theorem not_digits_cons {c : Char} (h : ¬ c.isDigit) : ¬ Digits (c :: digits) :=
  fun hd => h (hd.2 c List.mem_cons_self)

theorem numeral_plus_iff :
    Numeral ('+' :: digits) k ↔ Digits digits ∧ (decimal digits : Int) = k := by
  constructor
  · intro h
    cases h with
    | bare hd => exact absurd hd (not_digits_cons (by decide))
    | plus hd => exact ⟨hd, rfl⟩
  · rintro ⟨hd, rfl⟩
    exact .plus hd

theorem numeral_minus_iff :
    Numeral ('-' :: digits) k ↔ Digits digits ∧ -(decimal digits : Int) = k := by
  constructor
  · intro h
    cases h with
    | bare hd => exact absurd hd (not_digits_cons (by decide))
    | minus hd => exact ⟨hd, rfl⟩
  · rintro ⟨hd, rfl⟩
    exact .minus hd

theorem numeral_bare_iff (hp : ∀ digits, text ≠ '+' :: digits)
    (hm : ∀ digits, text ≠ '-' :: digits) :
    Numeral text k ↔ Digits text ∧ (decimal text : Int) = k := by
  constructor
  · intro h
    cases h with
    | bare hd => exact ⟨hd, rfl⟩
    | plus _ => exact absurd rfl (hp _)
    | minus _ => exact absurd rfl (hm _)
  · rintro ⟨hd, rfl⟩
    exact .bare hd

theorem numeral_of_digits (h : Digits text) : Numeral text k ↔ (decimal text : Int) = k := by
  rw [numeral_bare_iff, and_iff_right h]
  · rintro digits rfl
    exact not_digits_cons (by decide) h
  · rintro digits rfl
    exact not_digits_cons (by decide) h

private theorem map_ofNat_magnitude (hne : digits ≠ []) :
    (magnitude 0x7FFFFFFF .tooLarge 0 digits).map Int32.ofNat = .ok n ↔
      Digits digits ∧ (decimal digits : Int) = n.toInt := by
  have hf : Int32.ofNat = fun m : Nat => Int32.ofInt m :=
    funext fun m => Int32.ofInt_eq_ofNat.symm
  rw [hf]
  exact map_magnitude_eq_ok_iff (g := Nat.cast) hne fun m => by omega

private theorem map_neg_magnitude (hne : digits ≠ []) :
    (magnitude 0x80000000 .tooSmall 0 digits).map (fun m : Nat => Int32.ofInt (-m)) = .ok n ↔
      Digits digits ∧ -(decimal digits : Int) = n.toInt :=
  map_magnitude_eq_ok_iff (g := fun m => -m) hne fun m => by omega

/-- What is read is what the text stands for, if it fits. -/
theorem readSigned_eq_ok_iff : readSigned text = .ok n ↔ Numeral text n.toInt := by
  have hnil : ¬ Digits [] := fun h => h.1 rfl
  unfold readSigned
  split
  · simp [numeral_bare_iff, hnil]
  · simp [numeral_plus_iff, hnil]
  · simp [numeral_minus_iff, hnil]
  next digits hne => rw [numeral_plus_iff, map_ofNat_magnitude hne]
  next digits hne =>
    rw [numeral_minus_iff, ← map_neg_magnitude hne]
    cases magnitude 0x80000000 .tooSmall 0 digits with
    | error fault => exact Iff.rfl
    | ok m => exact Iff.rfl
  next hne _ _ hp hm =>
    rw [numeral_bare_iff hp hm, map_ofNat_magnitude hne]

end Signed

section Written

theorem digits_toDigits (n : Nat) : Digits (Nat.toDigits 10 n) :=
  ⟨Nat.toDigits_ne_nil, fun _ => Nat.isDigit_of_mem_toDigits (by decide) (by decide)⟩

theorem decimal_toDigits (n : Nat) : decimal (Nat.toDigits 10 n) = n := by
  rw [decimal_eq_ofDigitChars, Nat.ofDigitChars_ten_toDigits]

/-- An integer that is written out is a numeral of that integer. -/
theorem numeral_toString (n : Int) : Numeral (toString n).toList n := by
  rw [Int.toString_eq_repr, Int.repr_eq_if]
  split
  next hn =>
    have hb := Numeral.bare (digits_toDigits n.toNat)
    rw [decimal_toDigits, Int.toNat_of_nonneg hn] at hb
    rwa [Nat.repr_eq_ofList_toDigits, String.toList_ofList]
  next hn =>
    have hm := Numeral.minus (digits_toDigits (-n).toNat)
    rw [decimal_toDigits, Int.toNat_of_nonneg (by omega), Int.neg_neg] at hm
    simpa [Nat.repr_eq_ofList_toDigits] using hm

end Written

end BlockTrace.Text

namespace BlockTrace.Expression
open Json (Digits)

private theorem tokens_of_digits {digits : List Char} (h : Digits digits) :
    tokens digits = [.number digits] := by
  obtain ⟨hne, hd⟩ := h
  cases digits with
  | nil => exact absurd rfl hne
  | cons first rest =>
    rw [List.forall_mem_cons] at hd
    have ht : rest.takeWhile Char.isDigit = rest := List.takeWhile_eq_self_iff.2 hd.2
    have hr : rest.dropWhile Char.isDigit = [] := List.dropWhile_eq_nil_iff.2 hd.2
    rw [tokens, if_neg (by simp [isBlank_of_isDigit hd.1]), if_pos hd.1, ht, hr, tokens_nil]

/-- Digits alone are an expression, whose value is theirs, wrapped. -/
theorem evaluate_of_digits (vars : Variables) {digits : List Char} (h : Digits digits) :
    evaluate vars digits = .ok (.ofInt (decimal digits)) := by
  refine evaluate_eq_ok_iff.2 ⟨.literal digits, ?_, rfl⟩
  rw [tokens_of_digits h]
  exact .term (.factor (.literal digits))

end BlockTrace.Expression

namespace BlockTrace.Program
open Expression (Variables evaluate decimal)
open Json (Digits)
open Text (Numeral)

section Parameters
variable {p : Parameters} {key : Key} {text : String}

theorem integer?_eq_some_iff (h : p.get? key = some text) (n : Int32) :
    p.integer? key = some n ↔ Numeral text.toList n.toInt := by
  rw [Parameters.integer?, h, Option.bind_some, ← Text.readSigned_eq_ok_iff]
  cases Text.readSigned text.toList with
  | error fault => simp [Except.toOption]
  | ok m => simp [Except.toOption]

theorem integer?_eq_none_iff (h : p.get? key = some text) :
    p.integer? key = none ↔ ∀ m, Numeral text.toList m → m < -2 ^ 31 ∨ 2 ^ 31 - 1 < m := by
  rw [Option.eq_none_iff_forall_ne_some]
  constructor
  · intro hn m hm
    by_contra hr
    have hi : (Int32.ofInt m).toInt = m := Int32.toInt_ofInt_of_le (by omega) (by omega)
    exact hn (.ofInt m) ((integer?_eq_some_iff h _).2 (hi.symm ▸ hm))
  · intro hr n hn
    have hlow := n.le_toInt
    have hhigh := n.toInt_lt
    have hm := hr _ ((integer?_eq_some_iff h n).1 hn)
    omega

/-- A parameter of digits is their exact value, if that fits. -/
theorem integer?_of_digits (h : p.get? key = some text) (hd : Digits text.toList) :
    p.integer? key =
      if decimal text.toList ≤ 2 ^ 31 - 1 then some (.ofInt (decimal text.toList)) else none := by
  split
  next hl =>
    rw [integer?_eq_some_iff h, Text.numeral_of_digits hd,
      Int32.toInt_ofInt_of_le (by omega) (by omega)]
  next hl =>
    rw [integer?_eq_none_iff h]
    intro m hm
    rw [Text.numeral_of_digits hd] at hm
    omega

end Parameters

/-- A parameter that holds an integer of 32 bits in decimal, with a sign or without, is read as that
integer, and every other one is refused. A literal is never refused, and both readers give the same
value exactly where it does not wrap. What is written out for an integer is read as that integer. -/
theorem integer_readers_agree {p : Parameters} {key : Key} {text : String}
    (h : p.get? key = some text) (vars : Variables) :
    (∀ n : Int32, p.integer? key = some n ↔ Numeral text.toList n.toInt) ∧
    (p.integer? key = none ↔ ∀ m, Numeral text.toList m → m < -2 ^ 31 ∨ 2 ^ 31 - 1 < m) ∧
    (Digits text.toList →
      evaluate vars text.toList = .ok (.ofInt (decimal text.toList)) ∧
      ((∃ n, p.integer? key = some n ∧ evaluate vars text.toList = .ok n) ↔
        decimal text.toList ≤ 2 ^ 31 - 1) ∧
      (2 ^ 31 - 1 < decimal text.toList → p.integer? key = none)) ∧
    ∀ n : Int32, text = toString n → p.integer? key = some n := by
  refine ⟨integer?_eq_some_iff h, integer?_eq_none_iff h, fun hd => ?_, ?_⟩
  · have he := Expression.evaluate_of_digits vars hd
    have hi := integer?_of_digits h hd
    refine ⟨he, ?_, fun hl => by rw [hi, if_neg (Nat.not_le_of_lt hl)]⟩
    constructor
    · rintro ⟨n, hn, -⟩
      by_contra hl
      rw [hi, if_neg hl] at hn
      cases hn
    · intro hl
      exact ⟨_, by rw [hi, if_pos hl], he⟩
  · rintro n rfl
    exact (integer?_eq_some_iff h n).2 (Text.numeral_toString n.toInt)

/-- The first number that is too large for a parameter, and that a literal wraps; and the least one
that fits, with zeros in front. -/
theorem integer_readers_part_at_limit :
    (({} : Parameters).insert .size "2147483648").integer? .size = none ∧
    evaluate ∅ "2147483648".toList = .ok (-2147483648) ∧
    (({} : Parameters).insert .index "-002147483648").integer? .index = some (-2147483648) := by
  have hs : (({} : Parameters).insert .size "2147483648").get? .size = some "2147483648" :=
    Std.ExtTreeMap.getElem?_insert_self
  have hi : (({} : Parameters).insert .index "-002147483648").get? .index =
      some "-002147483648" :=
    Std.ExtTreeMap.getElem?_insert_self
  obtain ⟨-, -, hlarge, -⟩ := integer_readers_agree hs ∅
  obtain ⟨he, -, hn⟩ := hlarge ⟨by decide, by simp⟩
  obtain ⟨hsmall, -⟩ := integer_readers_agree hi ∅
  have hm : Numeral ('-' :: "002147483648".toList) (-decimal "002147483648".toList) :=
    .minus ⟨by decide, by simp⟩
  have ht : "-002147483648".toList = '-' :: "002147483648".toList := by
    decide
  have hd : decimal "002147483648".toList = 2147483648 := by
    decide
  rw [← ht, hd] at hm
  exact ⟨hn (by decide), he, (hsmall _).2 hm⟩

end BlockTrace.Program
