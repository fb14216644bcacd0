import Mathlib.Algebra.Order.Field.Power
import Mathlib.Algebra.Order.Floor.Semiring
import Mathlib.Data.Rat.Floor
import Mathlib.Tactic.FieldSimp
import Mathlib.Tactic.Linarith
import Mathlib.Tactic.NormNum
import Mathlib.Tactic.Ring
import Mercado.Decimal.Literal

/-! Exact decimal numbers: what a literal denotes, and how a number is written out. -/
namespace Decimal

structure Number where
  negative : Bool
  mantissa : ℕ
  exponent : ℤ
  deriving DecidableEq, Repr

namespace Number

def magnitude (n : Number) : ℚ := n.mantissa * 10 ^ n.exponent

def value (n : Number) : ℚ := if n.negative then -n.magnitude else n.magnitude

def shift (n : Number) (k : ℤ) : Number := { n with exponent := n.exponent + k }

theorem magnitude_nonneg (n : Number) : 0 ≤ n.magnitude := by
  unfold magnitude
  positivity

theorem magnitude_shift (n : Number) (k : ℤ) : (n.shift k).magnitude = n.magnitude * 10 ^ k := by
  simp only [magnitude, shift]
  rw [zpow_add₀ (by decide), mul_assoc]

theorem value_shift (n : Number) (k : ℤ) : (n.shift k).value = n.value * 10 ^ k := by
  unfold value
  rw [magnitude_shift]
  show (if n.negative then _ else _) = _
  split
  · rw [neg_mul]
  · rfl

end Number

def exponentValue : Option Exponent → ℤ
  | none => 0
  | some e =>
    if e.sign = some .minus then -(Nat.ofDigitChars 10 e.digits 0 : ℤ)
    else Nat.ofDigitChars 10 e.digits 0

def Literal.number (l : Literal) : Number where
  negative := l.sign = some .minus
  mantissa := Nat.ofDigitChars 10 l.digits 0
  exponent := exponentValue l.exponent - (l.fraction.getD []).length

def Literal.value (l : Literal) : ℚ := l.number.value

/-- The text is a literal of the grammar, for this number. -/
def Denotes (text : String) (q : ℚ) : Prop := ∃ l : Literal, l.text = text.toList ∧ l.value = q

theorem Denotes.unique {text : String} {q r : ℚ} (left : Denotes text q)
    (right : Denotes text r) : q = r := by
  obtain ⟨l, shown, rfl⟩ := left
  obtain ⟨l', shown', rfl⟩ := right
  rw [Literal.text_injective (shown.trans shown'.symm)]

def Places (q : ℚ) (p : ℕ) : Prop := ∃ n : ℤ, q * 10 ^ p = n

/- Rounding to the nearest integer, to the even one of two. -/

def roundHalfEven (q : ℚ) : ℕ :=
  if q - ⌊q⌋₊ < 1 / 2 then ⌊q⌋₊
  else if 1 / 2 < q - ⌊q⌋₊ then ⌊q⌋₊ + 1
  else ⌊q⌋₊ + ⌊q⌋₊ % 2

theorem roundHalfEven_natCast (n : ℕ) : roundHalfEven n = n := by
  simp [roundHalfEven]

def paddedDigits (p m : ℕ) : List Char :=
  List.replicate (p - (Nat.toDigits 10 m).length) '0' ++ Nat.toDigits 10 m

theorem allDigits_toDigits (m : ℕ) : AllDigits (Nat.toDigits 10 m) :=
  fun _ mem => Nat.isDigit_of_mem_toDigits (by decide) (by decide) mem

theorem allDigits_padded (p m : ℕ) : AllDigits (paddedDigits p m) :=
  (allDigits_zeros _).append (allDigits_toDigits m)

theorem ofDigitChars_padded (p m : ℕ) : Nat.ofDigitChars 10 (paddedDigits p m) 0 = m := by
  rw [paddedDigits, Nat.ofDigitChars_append, Nat.ofDigitChars_replicate_zero, Nat.mul_zero,
    Nat.ofDigitChars_ten_toDigits]

theorem length_padded {p m : ℕ} (positive : 0 < p) (small : m < 10 ^ p) :
    (paddedDigits p m).length = p := by
  have fits : (Nat.toDigits 10 m).length ≤ p := (Nat.length_toDigits_le_iff (by decide) positive).mpr small
  rw [paddedDigits, List.length_append, List.length_replicate]
  omega

theorem padded_zero (p : ℕ) : ∀ c ∈ paddedDigits p 0, c = '0' := by
  intro c mem
  cases List.mem_append.mp mem with
  | inl pad => exact List.eq_of_mem_replicate pad
  | inr digit => simpa using digit

namespace Number

def sign (n : Number) : Option Sign := if n.negative then some .minus else none

/-- With `p` digits after the dot, of the nearest such number. -/
def fixed (p : ℕ) (n : Number) : Literal :=
  let k := roundHalfEven (n.magnitude * 10 ^ p)
  { sign := n.sign
    whole := Nat.toDigits 10 (k / 10 ^ p)
    fraction := if p = 0 then none else some (paddedDigits p (k % 10 ^ p))
    exponent := none
    whole_digits := allDigits_toDigits _
    fraction_digits := by
      split
      · exact AllDigits.nil
      · exact allDigits_padded p _
    nonempty := by simp [Nat.toDigits_ne_nil] }

/-- All digits, without an exponent and without zeros at the end of the fraction. -/
def display (n : Number) : Literal :=
  let scale := 10 ^ (-n.exponent).toNat
  let shown := n.mantissa * 10 ^ n.exponent.toNat
  let fraction := (paddedDigits (-n.exponent).toNat (shown % scale)).rdropWhile (· == '0')
  { sign := n.sign
    whole := Nat.toDigits 10 (shown / scale)
    fraction := if fraction = [] then none else some fraction
    exponent := none
    whole_digits := allDigits_toDigits _
    fraction_digits := by
      split
      · exact AllDigits.nil
      · exact fun c mem => allDigits_padded _ _ c ((List.rdropWhile_prefix _ _).subset mem)
    nonempty := by simp [Nat.toDigits_ne_nil] }

theorem sign_negative (n : Number) : decide (n.sign = some .minus) = n.negative := by
  unfold sign
  cases n.negative <;> rfl

theorem fixed_number {p : ℕ} (positive : 0 < p) (n : Number) :
    (n.fixed p).number = ⟨n.negative, roundHalfEven (n.magnitude * 10 ^ p), -p⟩ := by
  unfold Literal.number Literal.digits fixed
  have nonzero : p ≠ 0 := by omega
  have small : roundHalfEven (n.magnitude * 10 ^ p) % 10 ^ p < 10 ^ p :=
    Nat.mod_lt _ (by positivity)
  simp only [if_neg nonzero, Option.getD_some, exponentValue, length_padded positive small,
    sign_negative, Nat.ofDigitChars_append, Nat.ofDigitChars_ten_toDigits, zero_sub]
  rw [Nat.ofDigitChars_eq_ofDigitChars_zero, ofDigitChars_padded, length_padded positive small,
    Nat.div_add_mod]

theorem display_natural {n : Number} {m : ℕ} (positive : n.negative = false)
    (natural : n.magnitude = m) : n.display.text = Nat.toDigits 10 m := by
  have shown : n.mantissa * 10 ^ n.exponent.toNat = m * 10 ^ (-n.exponent).toNat := by
    have exact : (n.mantissa * 10 ^ n.exponent.toNat : ℚ) = m * 10 ^ (-n.exponent).toNat := by
      rw [← natural, magnitude, mul_assoc]
      congr 1
      rw [← zpow_natCast, ← zpow_natCast, ← zpow_add₀ (by decide)]
      congr 1
      omega
    exact_mod_cast exact
  have whole : m * 10 ^ (-n.exponent).toNat / 10 ^ (-n.exponent).toNat = m :=
    Nat.mul_div_cancel m (by positivity)
  have fraction : (paddedDigits (-n.exponent).toNat 0).rdropWhile (· == '0') = [] := by
    rw [List.rdropWhile_eq_nil_iff]
    intro c mem
    rw [padded_zero _ c mem]
    rfl
  have unsigned : n.sign = none := by
    rw [sign, positive]
    rfl
  unfold Literal.text Literal.body display
  simp only [unsigned, shown, whole, Nat.mul_mod_left, fraction]
  simp [signText, fractionText, exponentText]

end Number

end Decimal
