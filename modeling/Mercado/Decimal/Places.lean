import Mercado.Decimal.Number
import Mercado.Text.Trim

/-! How many digits after the decimal point a literal needs, counted on its characters. -/
namespace Decimal

def Literal.significant (l : Literal) : List Char := l.digits.rdropWhile (· == '0')

/-- The number of places after the decimal point; negative, where even digits before it are
zero. -/
def Literal.decimals (l : Literal) : ℤ :=
  if l.significant = [] then 0
  else l.significant.length - l.whole.length - exponentValue l.exponent

theorem rdropWhile_zeros (cs : List Char) :
    cs = cs.rdropWhile (· == '0') ++
      List.replicate (cs.length - (cs.rdropWhile (· == '0')).length) '0' := by
  have split := List.rdropWhile_append_rtakeWhile (p := (· == '0')) (l := cs)
  have zeros : ∀ c ∈ cs.rtakeWhile (· == '0'), c = '0' := by
    intro c mem
    simpa using List.mem_rtakeWhile_imp mem
  have count : cs.length - (cs.rdropWhile (· == '0')).length =
      (cs.rtakeWhile (· == '0')).length := by
    have sum := congrArg List.length split
    rw [List.length_append] at sum
    omega
  rw [count, ← List.eq_replicate_of_mem zeros]
  exact split.symm

theorem significant_mod (l : Literal) (nonzero : l.significant ≠ []) :
    Nat.ofDigitChars 10 l.significant 0 % 10 ≠ 0 := by
  have last := List.rdropWhile_last_not (· == '0') l.digits nonzero
  have digit : (l.significant.getLast nonzero).isDigit = true := by
    have digits : AllDigits l.digits := l.whole_digits.append l.fraction_digits
    exact digits _ ((List.rdropWhile_prefix _ _).subset (List.getLast_mem nonzero))
  have bounds := Char.isDigit_iff_toNat.mp digit
  have other : (l.significant.getLast nonzero).toNat ≠ '0'.toNat := by
    intro same
    exact last (beq_iff_eq.mpr (Char.toNat_inj.mp same))
  rw [← List.dropLast_append_getLast nonzero, Nat.ofDigitChars_append, Nat.ofDigitChars_cons,
    Nat.ofDigitChars_nil]
  simp only [Char.reduceToNat] at bounds other ⊢
  omega

theorem value_significant (l : Literal) :
    l.value = Number.value ⟨l.number.negative, Nat.ofDigitChars 10 l.significant 0,
      l.whole.length - l.significant.length + exponentValue l.exponent⟩ := by
  have mantissa : Nat.ofDigitChars 10 l.digits 0 = Nat.ofDigitChars 10 l.significant 0 *
      10 ^ (l.digits.length - l.significant.length) := by
    conv_lhs => rw [rdropWhile_zeros l.digits]
    rw [Nat.ofDigitChars_append, Nat.ofDigitChars_replicate_zero, Nat.mul_comm]
    rfl
  have shorter : l.significant.length ≤ l.digits.length := (List.rdropWhile_prefix _ _).length_le
  have length : l.digits.length = l.whole.length + (l.fraction.getD []).length :=
    List.length_append
  have magnitude : l.number.magnitude = Number.magnitude ⟨l.number.negative,
      Nat.ofDigitChars 10 l.significant 0,
      l.whole.length - l.significant.length + exponentValue l.exponent⟩ := by
    show (Nat.ofDigitChars 10 l.digits 0 : ℚ) * 10 ^ l.number.exponent =
      Nat.ofDigitChars 10 l.significant 0 * 10 ^ _
    rw [mantissa, Nat.cast_mul, mul_assoc]
    congr 1
    push_cast
    rw [← zpow_natCast, ← zpow_add₀ (by decide)]
    congr 1
    unfold Literal.number
    dsimp only
    omega
  unfold Literal.value Number.value
  rw [magnitude]

theorem integer_iff {m : ℕ} (unit : m % 10 ≠ 0) (negative : Bool) (k : ℤ) :
    (∃ n : ℤ, Number.value ⟨negative, m, k⟩ = n) ↔ 0 ≤ k := by
  constructor
  · rintro ⟨n, whole⟩
    by_contra below
    have magnitude : ∃ z : ℤ, (m : ℚ) * 10 ^ k = z := by
      cases negative with
      | false => exact ⟨n, whole⟩
      | true => exact ⟨-n, by rw [Int.cast_neg, ← whole]; exact (neg_neg _).symm⟩
    obtain ⟨z, exact⟩ := magnitude
    obtain ⟨j, shape⟩ : ∃ j : ℕ, k = -(j + 1) := ⟨(-k - 1).toNat, by omega⟩
    have multiple : (m : ℤ) = z * 10 ^ j * 10 := by
      have scaled : (m : ℚ) = z * 10 ^ j * 10 := by
        rw [← exact, shape, zpow_neg, mul_assoc, mul_assoc, ← pow_succ]
        have power : ((10 : ℚ) ^ ((j : ℤ) + 1)) = 10 ^ (j + 1) := by exact_mod_cast rfl
        rw [power, inv_mul_cancel₀ (by positivity), mul_one]
      exact_mod_cast scaled
    omega
  · intro above
    obtain ⟨j, rfl⟩ := Int.eq_ofNat_of_zero_le above
    cases negative with
    | false => exact ⟨m * 10 ^ j, by simp [Number.value, Number.magnitude]⟩
    | true => exact ⟨-(m * 10 ^ j), by simp [Number.value, Number.magnitude]⟩

theorem places_iff (l : Literal) (p : ℕ) : Places l.value p ↔ l.decimals ≤ p := by
  rw [value_significant, Places, ← zpow_natCast, ← Number.value_shift]
  unfold Literal.decimals
  by_cases zero : l.significant = []
  · rw [if_pos zero, zero]
    have none : (0 : ℤ) ≤ p := by omega
    refine iff_of_true ⟨0, ?_⟩ none
    simp [Number.value, Number.magnitude, Number.shift]
  · rw [if_neg zero, Number.shift, integer_iff (significant_mod l zero)]
    dsimp only
    omega

def Literal.afterDot (l : Literal) : List Char :=
  match l.fraction with
  | none => []
  | some f => f ++ exponentText l.exponent

/-- The characters after the dot, without the zeros at the end. -/
def Literal.countAfterDot (l : Literal) : ℕ := (l.afterDot.rdropWhile (· == '0')).length

theorem countAfterDot_iff {l : Literal} (plain : l.exponent = none) (p : ℕ) :
    l.countAfterDot ≤ p ↔ l.decimals ≤ p := by
  have after : l.afterDot = l.fraction.getD [] := by
    unfold Literal.afterDot
    rw [plain]
    cases l.fraction with
    | none => rfl
    | some f => exact List.append_nil f
  have significant := Text.rdropWhile_append (· == '0') l.whole (l.fraction.getD [])
  have shorter := (List.rdropWhile_prefix (· == '0') l.whole).length_le
  unfold Literal.countAfterDot Literal.decimals
  rw [after, plain, exponentValue]
  by_cases integral : (l.fraction.getD []).rdropWhile (· == '0') = []
  · rw [if_pos integral] at significant
    have count : l.significant.length ≤ l.whole.length := by
      rw [Literal.significant, Literal.digits, significant]
      exact shorter
    rw [integral]
    simp only [List.length_nil, Nat.zero_le, true_iff]
    split <;> omega
  · rw [if_neg integral] at significant
    have shape : l.significant = l.whole ++ (l.fraction.getD []).rdropWhile (· == '0') := significant
    have nonempty : l.significant ≠ [] := by
      rw [shape]
      exact List.append_ne_nil_of_right_ne_nil _ integral
    rw [if_neg nonempty, shape, List.length_append]
    omega

end Decimal
