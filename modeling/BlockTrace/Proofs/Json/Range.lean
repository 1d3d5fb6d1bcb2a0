import BlockTrace.Proofs.Decimal.Scaling
import BlockTrace.Proofs.Json.Grammar
import Mathlib

/-! The range of the numbers of JSON text. A number is converted by way of its first digits and a
rounded power of ten, so the conversion and the exact value may disagree on whether a number next to
the largest double is one of the doubles. Further away they agree. -/
namespace BlockTrace.Json
open Decimal (Double)
open Decimal.Double (ceiling halfUnit halfUnit_pos largest round? scale? scale_range
  two_pow_eq_halfUnit two_pow_lt_ten_pow)

section Digits
variable {limit value : Nat} {digits : List Char}

theorem digitValue_lt {c : Char} (hc : c.isDigit) : Text.digitValue c < 10 := by
  have h0 : '0'.toNat = 48 := rfl
  have h9 : '9'.toNat = 57 := rfl
  rw [Char.isDigit_iff_toNat] at hc
  rw [Text.digitValue]
  omega

theorem ofDigitChars_bounds (hd : ∀ c ∈ digits, c.isDigit) (value : Nat) :
    value * 10 ^ digits.length ≤ Nat.ofDigitChars 10 digits value ∧
      Nat.ofDigitChars 10 digits value < (value + 1) * 10 ^ digits.length := by
  induction digits generalizing value with
  | nil => simp
  | cons c rest ih =>
    rw [List.forall_mem_cons] at hd
    have hc := digitValue_lt hd.1
    obtain ⟨hlow, hhigh⟩ := ih hd.2 (10 * value + Text.digitValue c)
    rw [Nat.ofDigitChars_cons, ← Text.digitValue.eq_1, List.length_cons, Nat.pow_succ']
    constructor
    · refine le_trans ?_ hlow
      rw [← Nat.mul_assoc]
      exact Nat.mul_le_mul_right _ (by omega)
    · refine hhigh.trans_le ?_
      rw [← Nat.mul_assoc]
      exact Nat.mul_le_mul_right _ (by omega)

/-- Digits behind the point take a value up by at most one. -/
theorem ofDigitChars_fraction (hd : ∀ c ∈ digits, c.isDigit) (value : Nat) :
    value ≤ Nat.ofDigitChars 10 digits value * (10 : ℚ) ^ (-(digits.length : ℤ)) ∧
      Nat.ofDigitChars 10 digits value * (10 : ℚ) ^ (-(digits.length : ℤ)) ≤ value + 1 := by
  obtain ⟨hlow, hhigh⟩ := ofDigitChars_bounds hd value
  rw [zpow_neg, zpow_natCast, ← div_eq_mul_inv, le_div_iff₀ (by positivity),
    div_le_iff₀ (by positivity)]
  exact ⟨by exact_mod_cast hlow, by exact_mod_cast hhigh.le⟩

theorem absorb_spec (digits : List Char) (hv : value ≤ limit) :
    ∃ taken, digits = taken ++ (absorb limit value digits).2 ∧
      (absorb limit value digits).1 = Nat.ofDigitChars 10 taken value ∧
      (absorb limit value digits).1 ≤ limit := by
  induction digits generalizing value with
  | nil => exact ⟨[], rfl, rfl, hv⟩
  | cons c rest ih =>
    rw [absorb]
    split
    next h =>
      obtain ⟨taken, hd, ht, hl⟩ := ih h
      refine ⟨c :: taken, congrArg _ hd, ?_, hl⟩
      rw [ht, Nat.ofDigitChars_cons, ← Text.digitValue.eq_1, Nat.mul_comm]
    next h => exact ⟨[], rfl, rfl, hv⟩

theorem absorb_stops (limit value : Nat) (hd : ∀ c ∈ digits, c.isDigit)
    (h : (absorb limit value digits).2 ≠ []) :
    limit < 10 * (absorb limit value digits).1 + 10 := by
  induction digits generalizing value with
  | nil => exact absurd rfl h
  | cons c rest ih =>
    rw [List.forall_mem_cons] at hd
    rw [absorb] at h ⊢
    split at h
    next hl =>
      rw [if_pos hl]
      exact ih _ hd.2 h
    next hl =>
      rw [if_neg hl]
      have := digitValue_lt hd.1
      omega

private theorem lt_ofDigitChars_of_absorb (h : (absorb limit value digits).2 ≠ []) :
    limit < Nat.ofDigitChars 10 digits value := by
  induction digits generalizing value with
  | nil => exact absurd rfl h
  | cons c rest ih =>
    rw [Nat.ofDigitChars_cons, ← Text.digitValue.eq_1, Nat.mul_comm]
    rw [absorb] at h
    split at h
    next hl => exact ih h
    next hl =>
      rw [Nat.ofDigitChars_eq_ofDigitChars_zero]
      have hp : 0 < 10 ^ rest.length := Nat.pow_pos (by norm_num)
      have := Nat.le_mul_of_pos_left (value * 10 + Text.digitValue c) hp
      omega

end Digits

namespace NumberText

def digits (t : NumberText) : List Char :=
  t.whole ++ t.fraction.getD []

/-- The number without its exponent. -/
def significand (t : NumberText) : ℚ :=
  Nat.ofDigitChars 10 t.digits 0 * 10 ^ (-((t.fraction.getD []).length : ℤ))

def power (t : NumberText) : Int :=
  match t.exponent with
  | none => 0
  | some (negative, digits) =>
    if negative then -(Nat.ofDigitChars 10 digits 0 : Nat) else (Nat.ofDigitChars 10 digits 0 : Nat)

/-- The exact size of the number. -/
def magnitude (t : NumberText) : ℚ :=
  t.significand * 10 ^ t.power

/-- The number is at most as large as the largest double. -/
def InRange (t : NumberText) : Prop :=
  t.magnitude ≤ largest

/-- The number has a value: its conversion does not overflow. -/
def Converts (t : NumberText) : Prop :=
  ∃ v, t.value = .ok v

section Significand
variable {t : NumberText}

theorem significand_nonneg (t : NumberText) : 0 ≤ t.significand := by
  unfold significand
  positivity

private theorem significand_le (hd : ∀ c ∈ t.digits, c.isDigit) :
    t.significand ≤ 10 ^ (t.digits.length : ℤ) := by
  have hn : (Nat.ofDigitChars 10 t.digits 0 : ℚ) ≤ 10 ^ t.digits.length := by
    exact_mod_cast (by simpa using (ofDigitChars_bounds hd 0).2.le)
  have hp : (10 : ℚ) ^ (-((t.fraction.getD []).length : ℤ)) ≤ 1 :=
    zpow_le_one_of_nonpos₀ (by norm_num) (by omega)
  calc t.significand ≤ Nat.ofDigitChars 10 t.digits 0 * 1 := by
        unfold significand
        gcongr
    _ ≤ 10 ^ (t.digits.length : ℤ) := by rwa [mul_one, zpow_natCast]

private theorem le_significand (h : t.significand ≠ 0) :
    10 ^ (-(t.digits.length : ℤ)) ≤ t.significand := by
  have hn : (1 : ℚ) ≤ Nat.ofDigitChars 10 t.digits 0 := by
    have : Nat.ofDigitChars 10 t.digits 0 ≠ 0 := fun h0 => h (by simp [significand, h0])
    exact_mod_cast Nat.one_le_iff_ne_zero.2 this
  calc (10 : ℚ) ^ (-(t.digits.length : ℤ)) ≤ 1 * 10 ^ (-((t.fraction.getD []).length : ℤ)) := by
        rw [one_mul]
        apply zpow_le_zpow_right₀ (by norm_num)
        rw [digits, List.length_append]
        omega
    _ ≤ t.significand := by
        unfold significand
        gcongr

private theorem zpow_neg_length_append (ds es : List Char) :
    (10 : ℚ) ^ (-((ds ++ es).length : ℤ)) =
      10 ^ (-(es.length : ℤ)) * 10 ^ (-(ds.length : ℤ)) := by
  rw [← zpow_add₀ (by norm_num), List.length_append]
  push_cast
  congr 1
  ring

/-- Numbers that are large and differ by at most one are close, on any scale. -/
private theorem near_of_same_unit {v : Nat} {q m : ℚ} (hv : 2 ^ 60 ≤ v) (hq : v ≤ q ∧ q ≤ v + 1)
    (hm : v ≤ m ∧ m ≤ v + 1) (k : ℤ) :
    |q * 10 ^ k - m * 10 ^ k| ≤ 2 ^ (-60 : ℤ) * (m * 10 ^ k) := by
  have hv' : (2 ^ 60 : ℚ) ≤ v := by exact_mod_cast hv
  have hk : (0 : ℚ) < 10 ^ k := by positivity
  rw [← sub_mul, abs_mul, abs_of_pos hk, ← mul_assoc]
  refine mul_le_mul_of_nonneg_right ?_ hk.le
  rw [abs_le]
  norm_num
  constructor <;> linarith

/-- Digits behind the point that do not count, behind those that do. -/
private theorem dropped_near {v : Nat} {counted dropped : List Char} (hd : ∀ c ∈ dropped, c.isDigit)
    (hv : dropped ≠ [] → 2 ^ 60 ≤ v) :
    |v * (10 : ℚ) ^ (-(counted.length : ℤ)) -
        Nat.ofDigitChars 10 dropped v * 10 ^ (-((counted ++ dropped).length : ℤ))| ≤
      2 ^ (-60 : ℤ) *
        (Nat.ofDigitChars 10 dropped v * 10 ^ (-((counted ++ dropped).length : ℤ))) := by
  rw [zpow_neg_length_append, ← mul_assoc]
  by_cases hn : dropped = []
  · subst hn
    simp only [Nat.ofDigitChars_nil, List.length_nil, Nat.cast_zero, neg_zero, zpow_zero, mul_one,
      sub_self, abs_zero]
    positivity
  · exact near_of_same_unit (hv hn) ⟨le_rfl, by linarith⟩ (ofDigitChars_fraction hd v) _

/-- Whole digits that do not count. Digits behind the point may count all the same. -/
private theorem excess_near {w : Nat} {excess counted frac : List Char} (hw : 2 ^ 60 ≤ w)
    (hc : ∀ c ∈ counted, c.isDigit) (hd : ∀ c ∈ excess ++ frac, c.isDigit) :
    |Nat.ofDigitChars 10 counted w * (10 : ℚ) ^ ((excess.length : ℤ) - counted.length) -
        Nat.ofDigitChars 10 (excess ++ frac) w * 10 ^ (-(frac.length : ℤ))| ≤
      2 ^ (-60 : ℤ) *
        (Nat.ofDigitChars 10 (excess ++ frac) w * 10 ^ (-(frac.length : ℤ))) := by
  have hf : (10 : ℚ) ^ (-(frac.length : ℤ)) =
      10 ^ (-((excess ++ frac).length : ℤ)) * 10 ^ (excess.length : ℤ) := by
    rw [zpow_neg_length_append, mul_assoc, ← zpow_add₀ (by norm_num), neg_add_cancel, zpow_zero,
      mul_one]
  have hs : (10 : ℚ) ^ ((excess.length : ℤ) - counted.length) =
      10 ^ (-(counted.length : ℤ)) * 10 ^ (excess.length : ℤ) := by
    rw [← zpow_add₀ (by norm_num), neg_add_eq_sub]
  rw [hf, hs, ← mul_assoc, ← mul_assoc]
  exact near_of_same_unit hw (ofDigitChars_fraction hc w) (ofDigitChars_fraction hd w) _

/-- The digits that count, with their power of ten, are close to the number without its
exponent. -/
theorem scaled_near (hd : ∀ c ∈ t.digits, c.isDigit) :
    t.scaled.1 < 2 ^ 64 ∧
      |t.scaled.1 * (10 : ℚ) ^ t.scaled.2 - t.significand| ≤ 2 ^ (-60 : ℤ) * t.significand := by
  have hw : ∀ c ∈ t.whole, c.isDigit := fun c hc => hd c (List.mem_append_left _ hc)
  have hf : ∀ c ∈ t.fraction.getD [], c.isDigit := fun c hc => hd c (List.mem_append_right _ hc)
  unfold scaled significand digits
  generalize t.fraction.getD [] = frac at *
  obtain ⟨first, hwd, hwv, hwl⟩ := absorb_spec t.whole (Nat.zero_le 0xFFFFFFFFFFFFFFFF)
  have hws := absorb_stops 0xFFFFFFFFFFFFFFFF 0 hw
  generalize absorb 0xFFFFFFFFFFFFFFFF 0 t.whole = taken at *
  obtain ⟨w, excess⟩ := taken
  obtain ⟨counted, hfd, hfv, hfl⟩ := absorb_spec frac hwl
  have hfs := absorb_stops 0xFFFFFFFFFFFFFFFF w hf
  dsimp only at *
  generalize absorb 0xFFFFFFFFFFFFFFFF w frac = taken at *
  obtain ⟨v, dropped⟩ := taken
  dsimp only at *
  subst hfd
  rw [List.length_append, Nat.add_sub_cancel]
  refine ⟨by omega, ?_⟩
  by_cases he : excess = []
  · subst he
    have hn : Nat.ofDigitChars 10 (t.whole ++ (counted ++ dropped)) 0 =
        Nat.ofDigitChars 10 dropped v := by
      rw [hwd, List.append_nil, Nat.ofDigitChars_append, Nat.ofDigitChars_append, ← hwv, ← hfv]
    rw [hn, List.length_nil, Nat.cast_zero, zero_sub, ← List.length_append]
    refine dropped_near (fun c hc => hf c (List.mem_append_right _ hc)) fun hr => ?_
    have := hfs hr
    omega
  · have hn : Nat.ofDigitChars 10 (t.whole ++ (counted ++ dropped)) 0 =
        Nat.ofDigitChars 10 (excess ++ (counted ++ dropped)) w := by
      rw [hwd, List.append_assoc, Nat.ofDigitChars_append, ← hwv]
    have hl := hws he
    rw [hn, hfv, ← List.length_append]
    refine excess_near (by omega) (fun c hc => hf c (List.mem_append_left _ hc)) fun c hc => ?_
    rcases List.mem_append.1 hc with h | h
    · exact hw c (hwd ▸ List.mem_append_right _ h)
    · exact hf c h

/-- The conversion of a number from the digits that count. It may go wrong within four units of the
largest double. -/
private theorem bind_scale_range {value : Nat} {e : Int} {m : ℚ} (hv : value < 2 ^ 64)
    (hm : |value * (10 : ℚ) ^ e - m| ≤ 2 ^ (-60 : ℤ) * m) :
    (m ≤ 2 ^ 54 * halfUnit - 8 * halfUnit →
        ∃ y, ((round? value 1).bind fun x => x.scale? e) = some y) ∧
      (2 ^ 54 * halfUnit + 8 * halfUnit ≤ m →
        ((round? value 1).bind fun x => x.scale? e) = none) := by
  have hu := halfUnit_pos
  rw [abs_le] at hm
  norm_num at hm
  obtain ⟨hlow, hhigh⟩ := hm
  rcases Nat.eq_zero_or_pos value with rfl | h0
  · refine ⟨fun _ => ⟨Double.zero, rfl⟩, fun h => ?_⟩
    rw [Nat.cast_zero, zero_mul] at hlow
    linarith
  · obtain ⟨x, hx, hs, hn⟩ := scale_range h0 hv e
    rw [hx]
    refine ⟨fun h => hs ?_, fun h => hn ?_⟩
    · linarith
    · linarith

theorem scaled_eq_zero_iff (hd : ∀ c ∈ t.digits, c.isDigit) :
    t.scaled.1 = 0 ↔ t.significand = 0 := by
  have hn := (scaled_near hd).2
  constructor
  · intro h0
    rw [h0, Nat.cast_zero, zero_mul, zero_sub, abs_neg, abs_of_nonneg t.significand_nonneg] at hn
    norm_num at hn
    linarith [t.significand_nonneg]
  · intro hz
    rw [hz, mul_zero, sub_zero] at hn
    have hp : (t.scaled.1 : ℚ) * 10 ^ t.scaled.2 = 0 := abs_nonpos_iff.1 hn
    simpa [zpow_ne_zero] using hp

private theorem magnitude_le_one {ds : List Char} (hd : ∀ c ∈ t.digits, c.isDigit)
    (he : t.exponent = some (true, ds)) (hl : t.digits.length ≤ Nat.ofDigitChars 10 ds 0) :
    t.magnitude ≤ 1 := by
  calc t.magnitude = t.significand * 10 ^ (-(Nat.ofDigitChars 10 ds 0 : ℤ)) := by
        simp [magnitude, power, he]
    _ ≤ 10 ^ (t.digits.length : ℤ) * 10 ^ (-(Nat.ofDigitChars 10 ds 0 : ℤ)) := by
        gcongr
        exact significand_le hd
    _ ≤ 1 := by
        rw [← zpow_add₀ (by norm_num)]
        exact zpow_le_one_of_nonpos₀ (by norm_num) (by omega)

private theorem two_pow_lt_magnitude {ds : List Char} (hz : t.significand ≠ 0)
    (he : t.exponent = some (false, ds))
    (hl : t.digits.length + 309 ≤ Nat.ofDigitChars 10 ds 0) :
    2 ^ 54 * halfUnit < t.magnitude := by
  calc 2 ^ 54 * halfUnit < (10 : ℚ) ^ 309 := two_pow_lt_ten_pow
    _ ≤ 10 ^ (-(t.digits.length : ℤ)) * 10 ^ (Nat.ofDigitChars 10 ds 0 : ℤ) := by
        rw [← zpow_add₀ (by norm_num), ← zpow_natCast]
        exact zpow_le_zpow_right₀ (by norm_num) (by omega)
    _ ≤ t.significand * 10 ^ (Nat.ofDigitChars 10 ds 0 : ℤ) := by
        gcongr
        exact le_significand hz
    _ = t.magnitude := by simp [magnitude, power, he]

/-- An exponent that is read in part decides alone, unless the number is zero. -/
private theorem size?_range_of_large {sign : Bool} {ds : List Char}
    (hd : ∀ c ∈ t.digits, c.isDigit) (hl : t.digits.length ≤ 2 * 10 ^ 9)
    (he : t.exponent = some (sign, ds)) (ha : (absorb 0x7FFFFFFF 0 ds).2 ≠ []) :
    (t.magnitude ≤ 2 ^ 54 * halfUnit - 8 * halfUnit → ∃ x, t.size? = some x) ∧
      (2 ^ 54 * halfUnit + 8 * halfUnit ≤ t.magnitude → t.size? = none) := by
  have hlarge := lt_ofDigitChars_of_absorb ha
  have hu := halfUnit_pos
  cases hab : absorb 0x7FFFFFFF 0 ds with
  | mk e rest =>
  cases rest with
  | nil => exact absurd (congrArg Prod.snd hab) ha
  | cons c rest =>
  rcases Nat.eq_zero_or_pos t.scaled.1 with h0 | h0
  · refine ⟨fun _ => ⟨Double.zero, by simp [size?, he, hab, h0, round?]⟩, fun h => ?_⟩
    rw [magnitude, (scaled_eq_zero_iff hd).1 h0, zero_mul] at h
    linarith
  obtain ⟨x, hx, -⟩ := scale_range h0 (scaled_near hd).1 0
  cases sign with
  | true =>
    refine ⟨fun _ => ⟨Double.zero, by simp [size?, he, hab, hx]⟩, fun h => ?_⟩
    have hm := magnitude_le_one hd he (by omega)
    have h1 : (1 : ℚ) ≤ halfUnit := one_le_pow₀ one_le_two
    linarith
  | false =>
    refine ⟨fun h => ?_, fun _ => by simp [size?, he, hab, hx, h0.ne']⟩
    have hm := two_pow_lt_magnitude (mt (scaled_eq_zero_iff hd).2 h0.ne') he (by omega)
    linarith

/-- Without its sign, a number far below the end of the range is converted, and one far beyond it is
not. -/
theorem size?_range (hd : ∀ c ∈ t.digits, c.isDigit) (hl : t.digits.length ≤ 2 * 10 ^ 9) :
    (t.magnitude ≤ 2 ^ 54 * halfUnit - 8 * halfUnit → ∃ x, t.size? = some x) ∧
      (2 ^ 54 * halfUnit + 8 * halfUnit ≤ t.magnitude → t.size? = none) := by
  obtain ⟨hv, hn⟩ := scaled_near hd
  have hscale (e : ℤ) : |t.scaled.1 * (10 : ℚ) ^ (t.scaled.2 + e) - t.significand * 10 ^ e| ≤
      2 ^ (-60 : ℤ) * (t.significand * 10 ^ e) := by
    have he : (0 : ℚ) < 10 ^ e := by positivity
    rw [zpow_add₀ (by norm_num), ← mul_assoc, ← sub_mul, abs_mul, abs_of_pos he, ← mul_assoc]
    exact mul_le_mul_of_nonneg_right hn he.le
  cases he : t.exponent with
  | none => simpa [size?, magnitude, power, he] using bind_scale_range hv (hscale 0)
  | some written =>
  obtain ⟨sign, ds⟩ := written
  by_cases ha : (absorb 0x7FFFFFFF 0 ds).2 = []
  · obtain ⟨taken, hd', hv', -⟩ := absorb_spec ds (Nat.zero_le 0x7FFFFFFF)
    rw [ha, List.append_nil] at hd'
    rw [← hd'] at hv'
    have hab : absorb 0x7FFFFFFF 0 ds = (Nat.ofDigitChars 10 ds 0, []) := Prod.ext hv' ha
    have hpos := bind_scale_range hv (hscale (Nat.ofDigitChars 10 ds 0))
    have hneg := bind_scale_range hv (hscale (-Nat.ofDigitChars 10 ds 0))
    cases sign with
    | false => simpa [size?, magnitude, power, he, hab] using hpos
    | true => simpa [size?, magnitude, power, he, hab, sub_eq_add_neg] using hneg
  · exact size?_range_of_large hd hl he ha

private theorem magnitude_lt_of_integer {n : Int} (h : t.integer? = some n) :
    t.magnitude < 2 ^ 64 := by
  unfold integer? at h
  split at h
  next hf he =>
    obtain ⟨taken, hd, hv, hl⟩ :=
      absorb_spec t.whole (Nat.zero_le 0xFFFFFFFFFFFFFFFF)
    split at h
    next value ha =>
      rw [ha, List.append_nil] at hd
      rw [ha, ← hd] at hv
      rw [ha] at hl
      have hl' : ((value : ℕ) : ℚ) < 2 ^ 64 := by exact_mod_cast (show value < 2 ^ 64 by omega)
      simpa [magnitude, significand, power, digits, hf, he, ← hv] using hl'
    next => cases h
  next => cases h

/-- Whether a number has a value is decided by its exact size, except within four units of the
largest double. A number is taken to have at most `2 * 10 ^ 9` digits before its exponent, so that
no exponent makes up for them unnoticed. -/
theorem converts_range {text : List Char} (ht : IsNumberText text t)
    (hl : t.digits.length ≤ 2 * 10 ^ 9) :
    (t.magnitude ≤ 2 ^ 1024 - 2 ^ 973 → t.Converts) ∧
      (2 ^ 1024 + 2 ^ 973 ≤ t.magnitude → ¬ t.Converts) := by
  obtain ⟨hw, -, part, -, hpart, -, -⟩ := ht
  have hd : ∀ c ∈ t.digits, c.isDigit := by
    intro c hc
    rcases List.mem_append.1 hc with h | h
    · exact hw.2 c h
    · generalize t.fraction = fraction at hpart h
      cases hpart with
      | absent => cases h
      | present hp => exact hp.2 c h
  obtain ⟨hs, hn⟩ := size?_range hd hl
  rw [show (2 : ℚ) ^ 1024 = 2 ^ 54 * halfUnit from two_pow_eq_halfUnit 54,
    show (2 : ℚ) ^ 973 = 2 ^ 3 * halfUnit from two_pow_eq_halfUnit 3,
    show (2 : ℚ) ^ 3 = 8 by norm_num]
  unfold Converts value
  cases hi : t.integer? with
  | none =>
    refine ⟨fun h => ?_, fun h => ?_⟩
    · obtain ⟨x, hx⟩ := hs h
      simp [hx]
    · simp [hn h]
  | some n =>
    refine ⟨fun _ => ⟨_, rfl⟩, fun h => ?_⟩
    have hu : (2 : ℚ) ^ 11 ≤ halfUnit := pow_le_pow_right₀ one_le_two (by norm_num)
    have hm := magnitude_lt_of_integer hi
    linarith

end Significand

end NumberText

end BlockTrace.Json
