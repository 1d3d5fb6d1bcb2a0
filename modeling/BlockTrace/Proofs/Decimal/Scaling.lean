import BlockTrace.Proofs.Decimal.Rounding
import Mathlib

/-! Scaling by powers of ten. Rounding the number, the power and the product moves a value by little,
so that only next to the largest double it can go the wrong way. -/
namespace BlockTrace.Decimal.Double

section Operations
variable {x y z : Double}

theorem size_nonneg (x : Double) : 0 ≤ x.size := by
  unfold size
  positivity

theorem mul?_eq_none_iff (x y : Double) : x.mul? y = none ↔ ceiling ≤ x.size * y.size := by
  rw [mul?, round?_eq_none_iff (Nat.mul_pos x.fraction_pos y.fraction_pos), Nat.cast_mul,
    Nat.cast_mul, mul_div_mul_comm, fraction_ratio, fraction_ratio]

private theorem div_ratio (x y : Double) :
    ((x.fraction.1 * y.fraction.2 : ℕ) : ℚ) / (x.fraction.2 * y.fraction.1 : ℕ) =
      x.size / y.size := by
  rw [← fraction_ratio x, ← fraction_ratio y, div_div_div_eq, Nat.cast_mul, Nat.cast_mul]

private theorem div_pos_of_size (x : Double) (hy : 0 < y.size) :
    0 < x.fraction.2 * y.fraction.1 := by
  refine Nat.mul_pos x.fraction_pos (Nat.pos_of_ne_zero fun h => ?_)
  rw [← fraction_ratio, h, Nat.cast_zero, zero_div] at hy
  exact lt_irrefl _ hy

private theorem div?_eq_none_iff (hy : 0 < y.size) :
    x.div? y = none ↔ ceiling ≤ x.size / y.size := by
  rw [div?, round?_eq_none_iff (div_pos_of_size x hy), div_ratio]

private theorem size_le_of_div? (hy : 0 < y.size) (h : x.div? y = some z) :
    z.size ≤ 2 * (x.size / y.size) + 1 := by
  rw [← div_ratio]
  exact size_le_of_round? (div_pos_of_size x hy) h

/-- A whole number in range is rounded within `2 ^ -53` of its own size. -/
theorem round_near {m : Nat} (h0 : 0 < m) (hm : (m : ℚ) < ceiling) :
    ∃ x, round? m 1 = some x ∧ |x.size - m| ≤ 2 ^ (-53 : ℤ) * m := by
  have hr : (m : ℚ) / (1 : ℕ) = m := by simp
  have h1 : (1 : ℚ) ≤ m := by exact_mod_cast h0
  cases hx : round? m 1 with
  | none =>
    rw [round?_eq_none_iff one_pos, hr] at hx
    exact absurd hx (not_le.2 hm)
  | some x =>
    refine ⟨x, rfl, ?_⟩
    have hs : (2 : ℚ) ^ (-1022 : ℤ) ≤ m / (1 : ℕ) := by
      rw [hr]
      exact (zpow_le_one_of_nonpos₀ one_le_two (by norm_num)).trans h1
    have he := round?_error one_pos hs hx
    rwa [hr] at he

/-- With a margin of three units of the largest double, whether there is a double for a product is
decided by what its factors are close to. -/
theorem mul?_range {v w : ℚ} (hv : 0 < v) (hw : 0 < w) (hx : |x.size - v| ≤ 2 ^ (-53 : ℤ) * v)
    (hy : |y.size - w| ≤ 2 ^ (-53 : ℤ) * w) :
    (v * w ≤ 2 ^ 54 * halfUnit - 6 * halfUnit → ∃ z, x.mul? y = some z) ∧
      (2 ^ 54 * halfUnit + 6 * halfUnit ≤ v * w → x.mul? y = none) := by
  have hu := halfUnit_pos
  rw [abs_le] at hx hy
  norm_num at hx hy
  constructor
  · intro h
    rw [← Option.ne_none_iff_exists', Ne, mul?_eq_none_iff, ceiling_eq, not_le]
    calc x.size * y.size ≤ ((1 + 1 / 2 ^ 53) * v) * ((1 + 1 / 2 ^ 53) * w) := by
          apply mul_le_mul _ _ y.size_nonneg (by positivity) <;> norm_num <;> linarith
      _ = (1 + 1 / 2 ^ 53) ^ 2 * (v * w) := by ring
      _ ≤ (1 + 1 / 2 ^ 53) ^ 2 * (2 ^ 54 * halfUnit - 6 * halfUnit) :=
          mul_le_mul_of_nonneg_left h (sq_nonneg _)
      _ < 2 ^ 54 * halfUnit - halfUnit := by
          norm_num
          linarith
  · intro h
    rw [mul?_eq_none_iff, ceiling_eq]
    calc (2 : ℚ) ^ 54 * halfUnit - halfUnit
        ≤ (1 - 1 / 2 ^ 53 : ℚ) ^ 2 * (2 ^ 54 * halfUnit + 6 * halfUnit) := by
          norm_num
          linarith
      _ ≤ (1 - 1 / 2 ^ 53 : ℚ) ^ 2 * (v * w) := mul_le_mul_of_nonneg_left h (sq_nonneg _)
      _ = ((1 - 1 / 2 ^ 53 : ℚ) * v) * ((1 - 1 / 2 ^ 53 : ℚ) * w) := by ring
      _ ≤ x.size * y.size := by
          apply mul_le_mul _ _ _ x.size_nonneg <;> norm_num <;> linarith

end Operations

section Powers
variable {x : Double} {n : Nat}

theorem powerOfTen_near (hn : n ≤ 308) :
    ∃ p, powerOfTen? n = some p ∧ |p.size - 10 ^ n| ≤ 2 ^ (-53 : ℤ) * 10 ^ n := by
  have hn' : (10 : ℚ) ^ n ≤ 10 ^ 308 := pow_le_pow_right₀ (by norm_num) hn
  have hc : (10 : ℚ) ^ 308 < ceiling := by
    rw [ceiling, lt_sub_iff_add_lt]
    exact_mod_cast (by decide +kernel : 10 ^ 308 + 2 ^ 970 < 2 ^ 1024)
  have hp : ((Nat.pow 10 n : ℕ) : ℚ) = 10 ^ n := by
    rw [Nat.pow_eq, Nat.cast_pow, Nat.cast_ofNat]
  obtain ⟨p, hr, he⟩ := round_near (m := Nat.pow 10 n) (Nat.pow_pos (by norm_num)) (by
    rw [hp]
    exact hn'.trans_lt hc)
  rw [hp] at he
  exact ⟨p, hr, he⟩

/-- Dividing by a power of ten, the power rounded, makes a number that is not too large no larger
than that. -/
theorem div_powerOfTen (h1 : 1 ≤ n) (hn : n ≤ 308) (hx : x.size ≤ 2 ^ 66) :
    ∃ y, (powerOfTen? n).bind x.div? = some y ∧ y.size ≤ 2 ^ 66 := by
  obtain ⟨p, hp, hpn⟩ := powerOfTen_near hn
  have h10 : (10 : ℚ) ≤ 10 ^ n := by
    simpa using pow_le_pow_right₀ (by norm_num : (1 : ℚ) ≤ 10) h1
  have hp4 : 4 ≤ p.size := by
    have := (abs_le.1 hpn).1
    norm_num at this
    linarith
  have hq : x.size / p.size ≤ 2 ^ 64 := by
    rw [div_le_iff₀ (by linarith)]
    linarith
  rw [hp, Option.bind_some]
  cases hd : x.div? p with
  | none =>
    rw [div?_eq_none_iff (by linarith), ceiling_eq] at hd
    have hu : (2 : ℚ) ^ 11 ≤ halfUnit := pow_le_pow_right₀ one_le_two (by norm_num)
    linarith
  | some y =>
    have := size_le_of_div? (by linarith) hd
    exact ⟨y, rfl, by linarith⟩

private theorem shrink_defined (h1 : 1 ≤ n) (hn : n ≤ 308) (times : Nat) (hx : x.size ≤ 2 ^ 66) :
    ∃ y, shrink? n times x = some y ∧ y.size ≤ 2 ^ 66 := by
  induction times generalizing x with
  | zero => exact ⟨x, rfl, hx⟩
  | succ times ih =>
    by_cases h0 : x.significand = 0
    · exact ⟨x, by rw [shrink?, if_pos h0], hx⟩
    · obtain ⟨y, hy, hs⟩ := div_powerOfTen h1 hn hx
      rw [shrink?, if_neg h0, hy]
      exact ih hs

/-- A negative power never leads out of the range. -/
theorem scale_defined {e : Int} (he : e < 0) (hx : x.size ≤ 2 ^ 66) :
    ∃ y, x.scale? e = some y := by
  by_cases h0 : x.significand = 0
  · exact ⟨zero, by rw [scale?, if_pos h0]⟩
  obtain ⟨y, hy, hs⟩ := shrink_defined (by norm_num) le_rfl ((e.natAbs - 1) / 308) hx
  obtain ⟨z, hz, -⟩ := div_powerOfTen (n := e.natAbs - 308 * ((e.natAbs - 1) / 308))
    (by omega) (by omega) hs
  refine ⟨z, ?_⟩
  rw [scale?, if_neg h0, if_neg (by omega)]
  simp only [hy, Option.bind_some, hz]

end Powers

theorem two_pow_lt_ten_pow : 2 ^ 54 * halfUnit < (10 : ℚ) ^ 309 := by
  rw [← two_pow_eq_halfUnit]
  exact_mod_cast (by decide +kernel : 2 ^ (54 + 970) < 10 ^ 309)

/-- A number of 64 bits, scaled by a power of ten. With a margin of three units of the largest
double, whether there is a double for it is decided by the exact product. -/
theorem scale_range {value : Nat} (h0 : 0 < value) (hv : value < 2 ^ 64) (e : Int) :
    ∃ x, round? value 1 = some x ∧
      (value * (10 : ℚ) ^ e ≤ 2 ^ 54 * halfUnit - 6 * halfUnit → ∃ y, x.scale? e = some y) ∧
      (2 ^ 54 * halfUnit + 6 * halfUnit ≤ value * (10 : ℚ) ^ e → x.scale? e = none) := by
  have hu : (2 : ℚ) ^ 11 ≤ halfUnit := pow_le_pow_right₀ one_le_two (by norm_num)
  have hv1 : (1 : ℚ) ≤ value := by exact_mod_cast h0
  have hv2 : (value : ℚ) < 2 ^ 64 := by exact_mod_cast hv
  obtain ⟨x, hx, hxv⟩ := round_near h0 (by
    rw [ceiling_eq]
    linarith)
  obtain ⟨hlow, hhigh⟩ := abs_le.1 hxv
  norm_num at hlow hhigh
  have hs : x.significand ≠ 0 := by
    intro h
    rw [size, h, Nat.cast_zero, zero_mul] at hlow
    linarith
  refine ⟨x, hx, ?_⟩
  rcases lt_or_ge e 0 with he | he
  · refine ⟨fun _ => scale_defined he (by linarith), fun h => ?_⟩
    have h1 : (10 : ℚ) ^ e ≤ 1 := zpow_le_one_of_nonpos₀ (by norm_num) he.le
    have hq : value * (10 : ℚ) ^ e ≤ value * 1 := by gcongr
    linarith
  obtain ⟨n, rfl⟩ := Int.eq_ofNat_of_zero_le he
  rw [zpow_natCast, scale?, if_neg hs, if_pos he]
  by_cases hn : (n : ℤ) ≤ 308
  · obtain ⟨p, hp, hpn⟩ := powerOfTen_near (n := n) (by omega)
    rw [if_pos hn, Int.toNat_natCast, hp, Option.bind_some]
    exact mul?_range (by linarith) (by positivity) hxv hpn
  · refine ⟨fun h => ?_, fun _ => if_neg hn⟩
    have hc : 2 ^ 54 * halfUnit < (10 : ℚ) ^ n :=
      two_pow_lt_ten_pow.trans_le (pow_le_pow_right₀ (by norm_num) (by omega : 309 ≤ n))
    have hq : 1 * (10 : ℚ) ^ n ≤ value * 10 ^ n := by gcongr
    linarith

end BlockTrace.Decimal.Double
