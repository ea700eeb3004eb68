import DataCollectionLab.Lib.Binary64

/-! Integers among the doubles: which there are, and where the nearest double of an integer lies. -/

namespace DataCollectionLab.Lib

namespace Binary64

theorem isDouble_mul_zpow {m e : ℤ} (short : |m| < 2 ^ 53) (low : -1074 ≤ e) (high : e ≤ 971) :
    IsDouble (finite (m * 2 ^ e)) := by
  refine ⟨nearest_mul_zpow short.le low, ?_⟩
  have size : |(m : ℚ)| < 2 ^ (53 : ℤ) := by exact_mod_cast short
  calc |(m : ℚ) * 2 ^ e| = |(m : ℚ)| * 2 ^ e := by rw [abs_mul, abs_of_pos (zpow_unit_pos e)]
    _ < 2 ^ (53 : ℤ) * 2 ^ e := mul_lt_mul_of_pos_right size (zpow_unit_pos e)
    _ = 2 ^ (53 + e) := (zpow_add₀ (by norm_num) 53 e).symm
    _ ≤ 2 ^ (1024 : ℤ) := zpow_le_zpow_right₀ (by norm_num) (by omega)
    _ = limit := zpow_natCast 2 1024

theorem unit_nonneg {q : ℚ} (large : 2 ^ 52 ≤ |q|) : 0 ≤ unit q := by
  have positive : 0 < |q| := lt_of_lt_of_le (by norm_num) large
  have log : (52 : ℤ) ≤ Int.log 2 |q| := (Int.zpow_le_iff_le_log (by norm_num) positive).mp (by exact_mod_cast large)
  unfold unit
  omega

theorem exists_int_of_large {q : ℚ} (large : 2 ^ 52 ≤ |q|) : ∃ m : ℤ, nearest q = m := by
  obtain ⟨k, is⟩ := Int.eq_ofNat_of_zero_le (unit_nonneg large)
  refine ⟨roundEven (q / 2 ^ unit q) * 2 ^ k, ?_⟩
  rw [nearest, is]
  push_cast
  rfl

theorem exists_int_nearest (n : ℤ) : ∃ m : ℤ, nearest n = m := by
  by_cases short : |n| ≤ 2 ^ 53
  · exact ⟨n, nearest_intCast short⟩
  · apply exists_int_of_large
    have large : 2 ^ 52 ≤ |n| := by omega
    exact_mod_cast large

theorem exists_mul_least {q : ℚ} (double : nearest q = q) : ∃ m : ℤ, q * 2 ^ 1074 = m := by
  have low : -1074 ≤ unit q := le_max_left _ _
  refine ⟨roundEven (q / 2 ^ unit q) * 2 ^ (unit q + 1074).toNat, ?_⟩
  have power : (2 : ℚ) ^ unit q * 2 ^ 1074 = 2 ^ (unit q + 1074).toNat := by
    rw [← zpow_natCast _ (unit q + 1074).toNat, Int.toNat_of_nonneg (by omega), zpow_add₀ (by norm_num)]
    congr 1
  calc q * 2 ^ 1074 = (roundEven (q / 2 ^ unit q) : ℚ) * 2 ^ unit q * 2 ^ 1074 := congrArg (· * 2 ^ 1074) double.symm
    _ = (roundEven (q / 2 ^ unit q) : ℚ) * 2 ^ (unit q + 1074).toNat := by rw [mul_assoc, power]
    _ = ((roundEven (q / 2 ^ unit q) * 2 ^ (unit q + 1074).toNat : ℤ) : ℚ) := by push_cast; rfl

theorem truncated_int (m : ℤ) : truncated m = m := by simp [truncated]

theorem truncated_nearest_iff (n : ℤ) : truncated (nearest n) = n ↔ nearest n = n := by
  obtain ⟨m, is⟩ := exists_int_nearest n
  rw [is, truncated_int]
  exact Int.cast_inj.symm

theorem isDouble_int_iff {n : ℤ} (small : |(n : ℚ)| < limit) : IsDouble (finite n) ↔ nearest n = n :=
  and_iff_left small

end Binary64

end DataCollectionLab.Lib
