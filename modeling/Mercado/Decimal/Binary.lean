import Mathlib.Data.Int.Log
import Mercado.Decimal.Number

/-! Rounding to a binary format: the nearest number of the format, of two the one with the even
mantissa. -/
namespace Decimal

theorem floor_le_round (q : ℚ) : ⌊q⌋₊ ≤ roundHalfEven q := by
  unfold roundHalfEven
  split_ifs <;> omega

theorem natCast_le_round {n : ℕ} {q : ℚ} (below : n ≤ q) : n ≤ roundHalfEven q :=
  (Nat.le_floor below).trans (floor_le_round q)

theorem round_le_even_iff {n : ℕ} (even : n % 2 = 0) {q : ℚ} (nonneg : 0 ≤ q) :
    roundHalfEven q ≤ n ↔ q ≤ n + 1 / 2 := by
  have low : (⌊q⌋₊ : ℚ) ≤ q := Nat.floor_le nonneg
  have high : q < ⌊q⌋₊ + 1 := Nat.lt_floor_add_one q
  rcases Nat.lt_trichotomy ⌊q⌋₊ n with below | same | above
  · have next : (⌊q⌋₊ + 1 : ℚ) ≤ n := by exact_mod_cast below
    have rounded : roundHalfEven q ≤ n := by
      unfold roundHalfEven
      split_ifs <;> omega
    exact iff_of_true rounded (by linarith)
  · unfold roundHalfEven
    rw [same]
    rw [same] at low high
    split_ifs with less greater
    · exact iff_of_true (Nat.le_refl n) (by linarith)
    · exact iff_of_false (by omega) (by linarith)
    · exact iff_of_true (by omega) (by linarith)
  · have next : (n + 1 : ℚ) ≤ ⌊q⌋₊ := by exact_mod_cast above
    have rounded := floor_le_round q
    exact iff_of_false (by omega) (by linarith)

/-- A format keeps `bits` binary digits after the first one; its last place is never finer than
two to the power of `lowest`. -/
structure Format where
  bits : ℕ
  lowest : ℤ

namespace Format

variable (F : Format)

def place (q : ℚ) : ℤ := max (Int.log 2 q - F.bits) F.lowest

def nearest (q : ℚ) : ℚ := roundHalfEven (q / 2 ^ F.place q) * 2 ^ F.place q

theorem place_lt (q : ℚ) : q < 2 ^ (F.bits + 1) * 2 ^ F.place q := by
  have log : q < 2 ^ (Int.log 2 q + 1) := Int.lt_zpow_succ_log_self (by decide) q
  have place : Int.log 2 q + 1 ≤ (F.bits + 1 : ℕ) + F.place q := by
    have first : Int.log 2 q - F.bits ≤ F.place q := le_max_left _ _
    omega
  rw [← zpow_natCast, ← zpow_add₀ (by decide)]
  exact log.trans_le (zpow_le_zpow_right₀ (by decide) place)

theorem le_place {q : ℚ} (positive : 0 < q) (finer : F.lowest < F.place q) :
    2 ^ F.bits * 2 ^ F.place q ≤ q := by
  have log : (2 : ℚ) ^ Int.log 2 q ≤ q := Int.zpow_log_le_self (by decide) positive
  have place : (F.bits : ℕ) + F.place q = Int.log 2 q := by
    unfold place at finer ⊢
    omega
  rw [← zpow_natCast, ← zpow_add₀ (by decide), place]
  exact log

theorem le_nearest {q : ℚ} (positive : 0 < q) (finer : F.lowest < F.place q) :
    2 ^ F.bits * 2 ^ F.place q ≤ F.nearest q := by
  have scale : (0 : ℚ) < 2 ^ F.place q := by positivity
  have full : ((2 ^ F.bits : ℕ) : ℚ) ≤ q / 2 ^ F.place q := by
    rw [le_div_iff₀ scale]
    exact_mod_cast F.le_place positive finer
  have rounded : ((2 ^ F.bits : ℕ) : ℚ) ≤ roundHalfEven (q / 2 ^ F.place q) := by
    exact_mod_cast natCast_le_round full
  unfold nearest
  apply mul_le_mul_of_nonneg_right _ scale.le
  exact_mod_cast rounded

theorem nearest_le {q : ℚ} (nonneg : 0 ≤ q) :
    F.nearest q ≤ 2 ^ (F.bits + 1) * 2 ^ F.place q := by
  have scale : (0 : ℚ) < 2 ^ F.place q := by positivity
  have bound : q / 2 ^ F.place q ≤ (2 ^ (F.bits + 1) : ℕ) + 1 / 2 := by
    rw [div_le_iff₀ scale]
    have below := F.place_lt q
    push_cast
    linarith
  have even : 2 ^ (F.bits + 1) % 2 = 0 := by
    rw [pow_succ]
    omega
  have rounded : (roundHalfEven (q / 2 ^ F.place q) : ℚ) ≤ (2 ^ (F.bits + 1) : ℕ) := by
    exact_mod_cast (round_le_even_iff even (by positivity)).mpr bound
  unfold nearest
  apply mul_le_mul_of_nonneg_right _ scale.le
  exact_mod_cast rounded

theorem nearest_zero : F.nearest 0 = 0 := by
  have zero : roundHalfEven 0 = 0 := roundHalfEven_natCast 0
  rw [nearest, zero_div, zero, Nat.cast_zero, zero_mul]

theorem nearest_le_iff {n : ℕ} {t : ℤ} (even : n % 2 = 0) (low : 2 ^ F.bits ≤ n)
    (high : n < 2 ^ (F.bits + 1)) (representable : F.lowest ≤ t) {q : ℚ} (nonneg : 0 ≤ q) :
    F.nearest q ≤ n * 2 ^ t ↔ q ≤ (n + 1 / 2) * 2 ^ t := by
  have unit : (0 : ℚ) < 2 ^ t := by positivity
  have low' : (2 ^ F.bits : ℚ) ≤ n := by exact_mod_cast low
  have high' : (n + 1 : ℚ) ≤ 2 ^ (F.bits + 1) := by exact_mod_cast high
  rcases nonneg.eq_or_lt with rfl | positive
  · rw [nearest_zero]
    exact iff_of_true (by positivity) (by positivity)
  rcases lt_trichotomy (F.place q) t with coarser | same | finer
  · -- every number of this place is smaller
    have step : (2 : ℚ) ^ (F.bits + 1) * 2 ^ F.place q ≤ 2 ^ F.bits * 2 ^ t := by
      have next : (2 : ℚ) ^ (F.place q + 1) ≤ 2 ^ t :=
        zpow_le_zpow_right₀ (by decide) (by omega)
      rw [zpow_add_one₀ (by decide)] at next
      rw [pow_succ, mul_assoc, mul_comm (2 : ℚ) (2 ^ F.place q)]
      exact mul_le_mul_of_nonneg_left next (by positivity)
    have top : (2 : ℚ) ^ F.bits * 2 ^ t ≤ n * 2 ^ t := mul_le_mul_of_nonneg_right low' unit.le
    have below := F.place_lt q
    have rounded := F.nearest_le nonneg
    exact iff_of_true (by linarith) (by linarith)
  · unfold nearest
    rw [same, mul_le_mul_iff_left₀ unit, Nat.cast_le,
      round_le_even_iff even (by positivity), div_le_iff₀ unit]
  · -- every number of this place is larger
    have step : (2 : ℚ) ^ (F.bits + 1) * 2 ^ t ≤ 2 ^ F.bits * 2 ^ F.place q := by
      have next : (2 : ℚ) ^ (t + 1) ≤ 2 ^ F.place q :=
        zpow_le_zpow_right₀ (by decide) (by omega)
      rw [zpow_add_one₀ (by decide)] at next
      rw [pow_succ, mul_assoc, mul_comm (2 : ℚ) (2 ^ t)]
      exact mul_le_mul_of_nonneg_left next (by positivity)
    have top : (n + 1 : ℚ) * 2 ^ t ≤ 2 ^ (F.bits + 1) * 2 ^ t :=
      mul_le_mul_of_nonneg_right high' unit.le
    have above := F.le_place positive (by omega)
    have rounded := F.le_nearest positive (by omega)
    exact iff_of_false (by linarith) (by linarith)

theorem nearest_zero_iff {q : ℚ} (nonneg : 0 ≤ q) :
    F.nearest q = 0 ↔ q ≤ 2 ^ (F.lowest - 1) := by
  have scale : (0 : ℚ) < 2 ^ F.place q := by positivity
  rcases nonneg.eq_or_lt with rfl | positive
  · exact iff_of_true F.nearest_zero (by positivity)
  have least : F.lowest ≤ F.place q := le_max_right _ _
  rcases least.eq_or_lt with same | finer
  · have half : (2 : ℚ) ^ (F.lowest - 1) = (0 + 1 / 2) * 2 ^ F.place q := by
      rw [zpow_sub_one₀ (by decide), same]
      ring
    have rounded := round_le_even_iff (n := 0) rfl (q := q / 2 ^ F.place q) (by positivity)
    rw [div_le_iff₀ scale, Nat.cast_zero, ← half, Nat.le_zero] at rounded
    rw [← rounded, nearest, mul_eq_zero, Nat.cast_eq_zero]
    exact or_iff_left scale.ne'
  · have above := F.le_place positive finer
    have rounded := F.le_nearest positive finer
    have full : (1 : ℚ) ≤ 2 ^ F.bits := one_le_pow₀ (by decide)
    have wide : (2 : ℚ) ^ (F.lowest - 1) < 2 ^ F.place q :=
      zpow_lt_zpow_right₀ (by decide) (by omega)
    have larger : (2 : ℚ) ^ F.place q ≤ 2 ^ F.bits * 2 ^ F.place q :=
      le_mul_of_one_le_left scale.le full
    exact iff_of_false (by linarith) (by linarith)

end Format
end Decimal
