import BlockTrace.Decimal.Double
import Mathlib

/-! Rounding to doubles. A fraction of at least `2 ^ -1022` is rounded within `2 ^ -53` of its own
size, and there is no double for it exactly from half a unit above the largest double on. -/
namespace BlockTrace.Decimal

section Quotients
variable {a b n : Nat}

private theorem roundDiv_error (hb : 0 < b) : |(roundDiv a b : ℚ) - a / b| ≤ 1 / 2 := by
  have hq : (a : ℚ) / b = (a / b : ℕ) + (a % b : ℕ) / b := by
    have := Nat.div_add_mod a b
    have hb' : (b : ℚ) ≠ 0 := by positivity
    field_simp
    exact_mod_cast this.symm
  have hb' : (0 : ℚ) < b := by exact_mod_cast hb
  unfold roundDiv
  split
  next h =>
    have hr : 2 * (a % b) ≤ b := by omega
    have hr' : ((a % b : ℕ) : ℚ) / b ≤ 1 / 2 := by
      rw [div_le_div_iff₀ hb' two_pos]
      exact_mod_cast (by omega : a % b * 2 ≤ 1 * b)
    have h0 : (0 : ℚ) ≤ ((a % b : ℕ) : ℚ) / b := by positivity
    rw [hq, abs_le]
    constructor <;> linarith
  next h =>
    have hr : b ≤ 2 * (a % b) := by omega
    have hm := Nat.mod_lt a hb
    have hr' : 1 / 2 ≤ ((a % b : ℕ) : ℚ) / b := by
      rw [div_le_div_iff₀ two_pos hb']
      exact_mod_cast (by omega : 1 * b ≤ a % b * 2)
    have h1 : ((a % b : ℕ) : ℚ) / b ≤ 1 := by
      rw [div_le_one hb']
      exact_mod_cast hm.le
    rw [hq, abs_le]
    push_cast
    constructor <;> linarith

private theorem roundDiv_bounds (a b : Nat) : a / b ≤ roundDiv a b ∧ roundDiv a b ≤ a / b + 1 := by
  unfold roundDiv
  split <;> omega

private theorem le_roundDiv_iff_mul (hb : 0 < b) (hn : 0 < n) (he : n % 2 = 0) :
    n ≤ roundDiv a b ↔ 2 * (b * n) ≤ 2 * a + b := by
  have hm := Nat.mod_lt a hb
  have ha := Nat.div_add_mod a b
  obtain ⟨hlow, hhigh⟩ := roundDiv_bounds a b
  rcases Nat.lt_trichotomy (a / b) (n - 1) with hl | hl | hl
  · -- Too far below: not even rounding up comes to `n`.
    have h2 : b * (a / b + 2) ≤ b * n := Nat.mul_le_mul_left b (by omega)
    rw [Nat.mul_add] at h2
    constructor <;> intro h <;> omega
  · obtain rfl : n = a / b + 1 := by omega
    rw [Nat.mul_succ]
    unfold roundDiv
    split <;> omega
  · have h2 : b * n ≤ b * (a / b) := Nat.mul_le_mul_left b (by omega)
    constructor <;> intro h <;> omega

/-- A half goes up to an even number, so that much below it is enough to reach it. -/
theorem le_roundDiv_iff (hb : 0 < b) (hn : 0 < n) (he : n % 2 = 0) :
    n ≤ roundDiv a b ↔ (n : ℚ) - 1 / 2 ≤ a / b := by
  have hb' : (0 : ℚ) < b := by exact_mod_cast hb
  rw [le_roundDiv_iff_mul hb hn he, le_div_iff₀ hb', ← Nat.cast_le (α := ℚ)]
  push_cast
  constructor <;> intro h <;> linarith

end Quotients

namespace Double

/-- The size of a double. -/
def size (x : Double) : ℚ :=
  x.significand * 2 ^ x.exponent

section Scaling
variable {a b : Nat}

theorem scaled_ratio (a b : Nat) (e : Int) :
    ((scaled a b e).1 : ℚ) / (scaled a b e).2 = a / b * 2 ^ e := by
  unfold scaled
  split
  next he =>
    obtain ⟨k, rfl⟩ := Int.eq_ofNat_of_zero_le he
    simp only [Int.toNat_natCast, Nat.shiftLeft_eq]
    push_cast
    rw [zpow_natCast]
    ring
  next he =>
    obtain ⟨k, hk⟩ := Int.eq_ofNat_of_zero_le (show 0 ≤ -e by omega)
    obtain rfl : e = -(k : ℤ) := by omega
    simp only [neg_neg, Int.toNat_natCast, Nat.shiftLeft_eq]
    push_cast
    rw [zpow_neg, zpow_natCast]
    field_simp

theorem scaled_pos (hb : 0 < b) (e : Int) : 0 < (scaled a b e).2 := by
  unfold scaled
  split
  · exact hb
  · rw [Nat.shiftLeft_eq]
    positivity

theorem fraction_ratio (x : Double) : (x.fraction.1 : ℚ) / x.fraction.2 = x.size := by
  rw [fraction, scaled_ratio, size, Nat.cast_one, div_one]

theorem fraction_pos (x : Double) : 0 < x.fraction.2 :=
  scaled_pos one_pos _

private theorem log2_bounds {n : Nat} (hn : 0 < n) :
    (2 : ℚ) ^ (n.log2 : ℤ) ≤ n ∧ (n : ℚ) < 2 ^ ((n.log2 : ℤ) + 1) := by
  constructor
  · rw [zpow_natCast]
    exact_mod_cast Nat.log2_self_le hn.ne'
  · rw [← Nat.cast_succ, zpow_natCast]
    exact_mod_cast Nat.lt_log2_self

theorem binaryExponent_bounds (ha : 0 < a) (hb : 0 < b) :
    (2 : ℚ) ^ binaryExponent a b ≤ a / b ∧ (a : ℚ) / b < 2 ^ (binaryExponent a b + 1) := by
  obtain ⟨hal, hau⟩ := log2_bounds ha
  obtain ⟨hbl, hbu⟩ := log2_bounds hb
  have hb' : (0 : ℚ) < b := by exact_mod_cast hb
  set g : ℤ := (a.log2 : ℤ) - b.log2 with hg
  -- The guess is right or one too large.
  have hlow : (2 : ℚ) ^ (g - 1) < a / b := by
    rw [lt_div_iff₀ hb']
    calc (2 : ℚ) ^ (g - 1) * b < 2 ^ (g - 1) * 2 ^ ((b.log2 : ℤ) + 1) := by gcongr
      _ = 2 ^ (a.log2 : ℤ) := by
        rw [← zpow_add₀ two_ne_zero]
        congr 1
        omega
      _ ≤ a := hal
  have hhigh : (a : ℚ) / b < 2 ^ (g + 1) := by
    rw [div_lt_iff₀ hb']
    calc (a : ℚ) < 2 ^ ((a.log2 : ℤ) + 1) := hau
      _ = 2 ^ (g + 1) * 2 ^ (b.log2 : ℤ) := by
        rw [← zpow_add₀ two_ne_zero]
        congr 1
        omega
      _ ≤ 2 ^ (g + 1) * b := by gcongr
  have hd : (0 : ℚ) < (scaled a b (-g)).2 := by exact_mod_cast scaled_pos hb (-g)
  have hc : (scaled a b (-g)).2 ≤ (scaled a b (-g)).1 ↔ (2 : ℚ) ^ g ≤ a / b := by
    have hr := scaled_ratio a b (-g)
    rw [← Nat.cast_le (α := ℚ), ← one_le_div hd, hr, zpow_neg, ← div_eq_mul_inv,
      one_le_div (by positivity)]
  unfold binaryExponent
  dsimp only
  rw [← hg]
  split
  next h => exact ⟨hc.1 h, hhigh⟩
  next h =>
    refine ⟨hlow.le, ?_⟩
    rw [sub_add_cancel]
    exact not_le.1 (mt hc.2 h)

/-- The exponent of the last place of what a fraction is rounded to. -/
def lastPlace (a b : Nat) : Int :=
  max (binaryExponent a b - 52) (-1074)

/-- How many units of the last place a fraction is rounded to. -/
def units (a b : Nat) : Nat :=
  roundDiv (scaled a b (-lastPlace a b)).1 (scaled a b (-lastPlace a b)).2

theorem round?_eq (ha : a ≠ 0) :
    round? a b =
      if units a b = 2 ^ 53 then
        if lastPlace a b + 1 ≤ 971 then some ⟨false, 2 ^ 52, lastPlace a b + 1⟩ else none
      else if lastPlace a b ≤ 971 then some ⟨false, units a b, lastPlace a b⟩ else none := by
  rw [round?, if_neg ha]
  simp only [← lastPlace.eq_1, ← units.eq_1, apply_ite Prod.fst, apply_ite Prod.snd]
  norm_num only
  by_cases h : units a b = 9007199254740992 <;> simp only [h, if_true, if_false]

theorem units_error (hb : 0 < b) :
    |units a b * (2 : ℚ) ^ lastPlace a b - a / b| ≤ 2 ^ (lastPlace a b - 1) := by
  have h := roundDiv_error (a := (scaled a b (-lastPlace a b)).1)
    (scaled_pos (a := a) hb (-lastPlace a b))
  rw [scaled_ratio, ← units.eq_1] at h
  have hu : (0 : ℚ) < 2 ^ lastPlace a b := by positivity
  have hr : (a : ℚ) / b = a / b * 2 ^ (-lastPlace a b) * 2 ^ lastPlace a b := by
    rw [mul_assoc, ← zpow_add₀ two_ne_zero, neg_add_cancel, zpow_zero, mul_one]
  calc |units a b * (2 : ℚ) ^ lastPlace a b - a / b|
      = |units a b - a / b * (2 : ℚ) ^ (-lastPlace a b)| * 2 ^ lastPlace a b := by
        nth_rewrite 1 [hr]
        rw [← sub_mul, abs_mul, abs_of_pos hu]
    _ ≤ 1 / 2 * 2 ^ lastPlace a b := by gcongr
    _ = 2 ^ (lastPlace a b - 1) := by
        rw [zpow_sub_one₀ two_ne_zero]
        ring

private theorem units_le (ha : 0 < a) (hb : 0 < b) : units a b ≤ 2 ^ 53 := by
  have h := (abs_le.1 (units_error (a := a) hb)).2
  have hq := (binaryExponent_bounds ha hb).2
  have hu : (0 : ℚ) < 2 ^ lastPlace a b := by positivity
  have he : (2 : ℚ) ^ (binaryExponent a b + 1) ≤ 2 ^ 53 * 2 ^ lastPlace a b := by
    rw [← zpow_natCast, ← zpow_add₀ two_ne_zero]
    apply zpow_le_zpow_right₀ one_le_two
    have := le_max_left (binaryExponent a b - 52) (-1074)
    rw [← lastPlace.eq_1] at this
    omega
  rw [zpow_sub_one₀ two_ne_zero] at h
  have hl : (units a b : ℚ) < 2 ^ 53 + 1 := by
    rw [← mul_lt_mul_iff_left₀ hu]
    linarith
  have hl' : units a b < 2 ^ 53 + 1 := by exact_mod_cast hl
  omega

theorem size_of_round? {x : Double} (ha : a ≠ 0) (h : round? a b = some x) :
    x.size = units a b * 2 ^ lastPlace a b := by
  rw [round?_eq ha] at h
  split at h
  next hu =>
    split at h
    next _ =>
      cases h
      rw [size, hu, zpow_add_one₀ two_ne_zero]
      push_cast
      ring
    next _ => cases h
  next _ =>
    split at h
    next _ =>
      cases h
      rfl
    next _ => cases h

end Scaling

section Rounded
variable {a b : Nat} {x : Double}

/-- The largest double. -/
def largest : ℚ :=
  2 ^ 1024 - 2 ^ 971

/-- Half a unit above the largest double, from where on nothing is rounded to a double. -/
def ceiling : ℚ :=
  2 ^ 1024 - 2 ^ 970

/-- Half a unit of the largest double, in which the numbers near it are counted. -/
def halfUnit : ℚ :=
  2 ^ 970

theorem halfUnit_pos : 0 < halfUnit := by
  unfold halfUnit
  positivity

theorem two_pow_eq_halfUnit (n : Nat) : (2 : ℚ) ^ (n + 970) = 2 ^ n * halfUnit :=
  pow_add 2 n 970

theorem ceiling_eq : ceiling = 2 ^ 54 * halfUnit - halfUnit := by
  rw [ceiling, ← two_pow_eq_halfUnit, halfUnit]

/-- There is no double for a fraction exactly from the ceiling on. -/
theorem round?_eq_none_iff (hb : 0 < b) : round? a b = none ↔ ceiling ≤ a / b := by
  have hu := halfUnit_pos
  rw [ceiling_eq]
  by_cases ha : a = 0
  · subst ha
    simp only [round?, if_true, reduceCtorEq, Nat.cast_zero, zero_div, false_iff, not_le]
    linarith
  have ha' : 0 < a := Nat.pos_of_ne_zero ha
  obtain ⟨hlow, hhigh⟩ := binaryExponent_bounds ha' hb
  have hm := units_le ha' hb
  have hl := max_choice (binaryExponent a b - 52) (-1074)
  have hl' := le_max_left (binaryExponent a b - 52) (-1074)
  rw [← lastPlace.eq_1] at hl hl'
  rw [round?_eq ha]
  rcases lt_trichotomy (lastPlace a b) 971 with hp | hp | hp
  · have hq : (a : ℚ) / b < 2 ^ (1023 : ℤ) :=
      hhigh.trans_le (zpow_le_zpow_right₀ one_le_two (by omega))
    rw [show (2 : ℚ) ^ (1023 : ℤ) = 2 ^ 53 * halfUnit from two_pow_eq_halfUnit 53] at hq
    have hn : ¬ 2 ^ 54 * halfUnit - halfUnit ≤ a / b := by linarith
    rw [if_pos (by omega : lastPlace a b + 1 ≤ 971), if_pos hp.le]
    simp only [hn, iff_false]
    split <;> simp
  · -- In the last binade the threshold is half a unit below `2 ^ 53` units.
    have he : 2 ^ 53 ≤ units a b ↔ 2 ^ 54 * halfUnit - halfUnit ≤ a / b := by
      rw [units, le_roundDiv_iff (scaled_pos hb _) (by positivity) (by norm_num), scaled_ratio, hp,
        zpow_neg, ← div_eq_mul_inv, le_div_iff₀ (by positivity),
        show (2 : ℚ) ^ (971 : ℤ) = 2 ^ 1 * halfUnit from two_pow_eq_halfUnit 1]
      push_cast
      constructor <;> intro h <;> linarith
    rw [← he, if_neg (by omega : ¬ lastPlace a b + 1 ≤ 971), if_pos hp.le]
    by_cases h : units a b = 2 ^ 53
    · simp [h]
    · simp only [if_neg h, reduceCtorEq, false_iff]
      omega
  · have hq : (2 : ℚ) ^ (1024 : ℤ) ≤ a / b :=
      (zpow_le_zpow_right₀ one_le_two (by omega)).trans hlow
    rw [show (2 : ℚ) ^ (1024 : ℤ) = 2 ^ 54 * halfUnit from two_pow_eq_halfUnit 54] at hq
    have hn : 2 ^ 54 * halfUnit - halfUnit ≤ a / b := by linarith
    rw [if_neg (by omega : ¬ lastPlace a b + 1 ≤ 971), if_neg (by omega : ¬ lastPlace a b ≤ 971)]
    simp only [hn, iff_true]
    split <;> rfl

/-- A fraction is rounded within `2 ^ -53` of its own size, if it is not too small. -/
theorem round?_error (hb : 0 < b) (hq : (2 : ℚ) ^ (-1022 : ℤ) ≤ a / b) (h : round? a b = some x) :
    |x.size - a / b| ≤ 2 ^ (-53 : ℤ) * (a / b) := by
  have ha : 0 < a := by
    rcases Nat.eq_zero_or_pos a with rfl | ha
    · have : (0 : ℚ) < 2 ^ (-1022 : ℤ) := by positivity
      simp only [Nat.cast_zero, zero_div] at hq
      linarith
    · exact ha
  obtain ⟨hlow, hhigh⟩ := binaryExponent_bounds ha hb
  have hl : lastPlace a b = binaryExponent a b - 52 := by
    have := (zpow_lt_zpow_iff_right₀ (one_lt_two (α := ℚ))).1 (hq.trans_lt hhigh)
    exact max_eq_left (by omega)
  rw [size_of_round? ha.ne' h]
  calc |units a b * (2 : ℚ) ^ lastPlace a b - a / b| ≤ 2 ^ (lastPlace a b - 1) := units_error hb
    _ = 2 ^ (-53 : ℤ) * 2 ^ binaryExponent a b := by
        rw [hl, ← zpow_add₀ two_ne_zero]
        congr 1
        ring
    _ ≤ 2 ^ (-53 : ℤ) * (a / b) := by gcongr

private theorem size_zero : zero.size = 0 := by
  simp [zero, size]

/-- However small a fraction is, it is not rounded up by much. -/
theorem size_le_of_round? (hb : 0 < b) (h : round? a b = some x) :
    x.size ≤ 2 * (a / b) + 1 := by
  by_cases hq : (2 : ℚ) ^ (-1022 : ℤ) ≤ a / b
  · have he := (abs_le.1 (round?_error hb hq h)).2
    have hs : (2 : ℚ) ^ (-53 : ℤ) * (a / b) ≤ 1 * (a / b) := by
      gcongr
      exact zpow_le_one_of_nonpos₀ one_le_two (by norm_num)
    linarith
  · by_cases ha : a = 0
    · subst ha
      simp only [round?, if_true, Option.some.injEq] at h
      subst h
      rw [size_zero]
      simp
    obtain ⟨hlow, -⟩ := binaryExponent_bounds (Nat.pos_of_ne_zero ha) hb
    have hl : lastPlace a b - 1 ≤ 0 := by
      have := (zpow_lt_zpow_iff_right₀ (one_lt_two (α := ℚ))).1 (hlow.trans_lt (not_le.1 hq))
      rw [lastPlace]
      omega
    have he := (abs_le.1 (units_error (a := a) hb)).2
    have h1 : (2 : ℚ) ^ (lastPlace a b - 1) ≤ 1 := zpow_le_one_of_nonpos₀ one_le_two hl
    have h0 : (0 : ℚ) ≤ a / b := by positivity
    rw [size_of_round? ha h]
    linarith

end Rounded

end Double

end BlockTrace.Decimal
