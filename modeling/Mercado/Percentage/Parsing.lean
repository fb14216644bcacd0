import Mercado.Decimal.Binary
import Mercado.Decimal.Places

/-! `Percentage` and the strings that it is made of. The range is checked on the rounded value,
the number of decimals on the characters after the dot. -/
namespace Mercado

open Decimal

inductive F32 where
  | finite (negative : Bool) (magnitude : ℚ)
  | infinite (negative : Bool)
  | nan
  deriving DecidableEq

def binary32 : Format := ⟨23, -149⟩

def F32.round (n : Number) : F32 :=
  if 2 ^ 128 ≤ binary32.nearest n.magnitude then .infinite n.negative
  else .finite n.negative (binary32.nearest n.magnitude)

def F32.ofParsed : Parsed → F32
  | .number l => .round l.number
  | .infinite negative => .infinite negative
  | .nan => .nan

def parseF32 (text : String) : Except ParseFloatError F32 := (parseFloat text).map F32.ofParsed

inductive PercentageError where
  | invalidPercentageValue
  deriving DecidableEq, Repr

/-- A report, with the error it was made from and the text attached to it. -/
structure PercentageReport where
  context : PercentageError
  source : Option ParseFloatError
  printable : Option String
  deriving DecidableEq

structure Percentage (PRECISION : UInt8) where
  percentage : F32
  deriving DecidableEq

def getInvalidPercentageErrorMessage (precision : UInt8) : String :=
  s!"value should be a float between 0 to 100 and precise to only upto {precision} decimal digits"

def byteLength (cs : List Char) : ℕ := (cs.map Char.utf8Size).sum

namespace Percentage

def isValidFloatString (value : String) : Except PercentageReport F32 :=
  (parseF32 value).mapError fun e => ⟨.invalidPercentageValue, some e, none⟩

/-- No infinity and no NaN is in the range. -/
def isValidRange : F32 → Bool
  | .finite negative magnitude =>
    let value := if negative then -magnitude else magnitude
    0 ≤ value && value ≤ 100
  | _ => false

def isValidPrecisionLength (PRECISION : UInt8) (value : String) : Bool :=
  if value.toList.contains '.' then
    match (value.toList.splitOn '.').getLast? with
    | some decimalPart => byteLength (decimalPart.rdropWhile (· == '0')) ≤ PRECISION.toNat
    | none => false
  else true

def isValidStringValue (PRECISION : UInt8) (value : String) : Except PercentageReport Bool := do
  let floatValue ← isValidFloatString value
  return isValidRange floatValue && isValidPrecisionLength PRECISION value

def fromString (PRECISION : UInt8) (value : String) :
    Except PercentageReport (Percentage PRECISION) := do
  if ← isValidStringValue PRECISION value then
    return ⟨← isValidFloatString value⟩
  else
    throw ⟨.invalidPercentageValue, none, some (getInvalidPercentageErrorMessage PRECISION)⟩

end Percentage

/- What the strings should be. -/

/-- From 0 to 100, with at most so many digits after the decimal point. -/
def IsPercentage (PRECISION : UInt8) (q : ℚ) : Prop :=
  0 ≤ q ∧ q ≤ 100 ∧ Places q PRECISION.toNat

/-- Rounding brings a number into the range from this far. -/
def RoundsIntoRange (q : ℚ) : Prop := -2 ^ (-150 : ℤ) ≤ q ∧ q ≤ 100 + 2 ^ (-18 : ℤ)

namespace Percentage

theorem nearest_nonneg (F : Format) (q : ℚ) : 0 ≤ F.nearest q := by
  unfold Format.nearest
  positivity

theorem nearest_le_hundred {q : ℚ} (nonneg : 0 ≤ q) :
    binary32.nearest q ≤ 100 ↔ q ≤ 100 + 2 ^ (-18 : ℤ) := by
  have hundred := binary32.nearest_le_iff (n := 13107200) (t := -17) (by decide) (by decide)
    (by decide) (by decide) nonneg
  norm_num at hundred ⊢
  exact hundred

theorem nearest_eq_zero {q : ℚ} (nonneg : 0 ≤ q) :
    binary32.nearest q = 0 ↔ q ≤ 2 ^ (-150 : ℤ) :=
  binary32.nearest_zero_iff nonneg

theorem roundsIntoRange_iff (n : Number) : RoundsIntoRange n.value ↔
    if n.negative then binary32.nearest n.magnitude = 0
    else binary32.nearest n.magnitude ≤ 100 := by
  have nonneg := n.magnitude_nonneg
  unfold RoundsIntoRange Number.value
  split
  · rw [nearest_eq_zero nonneg, neg_le_neg_iff]
    have upper : -n.magnitude ≤ 100 + 2 ^ (-18 : ℤ) := by
      have positive : (0 : ℚ) ≤ 2 ^ (-18 : ℤ) := by positivity
      linarith
    exact and_iff_left upper
  · rw [nearest_le_hundred nonneg]
    have lower : -2 ^ (-150 : ℤ) ≤ n.magnitude := by
      have positive : (0 : ℚ) ≤ 2 ^ (-150 : ℤ) := by positivity
      linarith
    exact and_iff_right lower

theorem isValidRange_round (n : Number) :
    isValidRange (F32.round n) = true ↔ RoundsIntoRange n.value := by
  have nonneg := nearest_nonneg binary32 n.magnitude
  rw [roundsIntoRange_iff, F32.round]
  split
  · rename_i overflow
    have outside : ¬ if n.negative then binary32.nearest n.magnitude = 0
        else binary32.nearest n.magnitude ≤ 100 := by
      norm_num at overflow
      split <;> intro inside <;> linarith
    exact iff_of_false Bool.false_ne_true outside
  · unfold isValidRange
    cases n.negative with
    | true =>
      simp only [if_true, Bool.and_eq_true, decide_eq_true_eq]
      constructor
      · intro range
        linarith [range.1]
      · intro zero
        rw [zero]
        norm_num
    | false =>
      simp only [Bool.false_eq_true, if_false, Bool.and_eq_true, decide_eq_true_eq]
      exact and_iff_right nonneg

/- The characters after the dot. -/

def Plain (c : Char) : Prop := c ≠ '.' ∧ c.utf8Size = 1

theorem plain_digit {c : Char} (digit : c.isDigit = true) : Plain c := by
  constructor
  · rintro rfl
    contradiction
  · have bound : c.val ≤ 127 :=
      UInt32.le_iff_toNat_le.mpr ((Char.isDigit_iff_toNat.mp digit).2.trans (by decide))
    exact if_pos bound

theorem plain_sign (s : Sign) : Plain s.char := by
  cases s <;> exact ⟨by decide, by decide⟩

theorem plain_signText (s : Option Sign) : ∀ c ∈ signText s, Plain c := by
  intro c mem
  cases s with
  | none => cases mem
  | some s =>
    rw [List.mem_singleton.mp mem]
    exact plain_sign s

theorem plain_exponentText (e : Option Exponent) : ∀ c ∈ exponentText e, Plain c := by
  intro c mem
  cases e with
  | none => cases mem
  | some e =>
    rcases List.mem_cons.mp mem with marker | rest
    · rw [marker]
      cases e.marker_e with
      | inl small => rw [small]; exact ⟨by decide, by decide⟩
      | inr large => rw [large]; exact ⟨by decide, by decide⟩
    · cases List.mem_append.mp rest with
      | inl sign => exact plain_signText e.sign c sign
      | inr digit => exact plain_digit (e.all_digits c digit)

theorem byteLength_plain {cs : List Char} (plain : ∀ c ∈ cs, Plain c) :
    byteLength cs = cs.length := by
  induction cs with
  | nil => rfl
  | cons c cs ih =>
    have rest := ih fun d mem => plain d (List.mem_cons_of_mem c mem)
    have first := (plain c List.mem_cons_self).2
    unfold byteLength at rest ⊢
    rw [List.map_cons, List.sum_cons, rest, first, List.length_cons]
    omega

theorem isValidPrecisionLength_iff (PRECISION : UInt8) {value : String} {l : Literal}
    (text : l.text = value.toList) :
    isValidPrecisionLength PRECISION value = true ↔ l.countAfterDot ≤ PRECISION.toNat := by
  unfold isValidPrecisionLength Literal.countAfterDot Literal.afterDot
  rw [← text]
  cases fraction : l.fraction with
  | none =>
    have whole : ∀ c ∈ signText l.sign ++ l.whole, Plain c := by
      intro c mem
      cases List.mem_append.mp mem with
      | inl sign => exact plain_signText l.sign c sign
      | inr digit => exact plain_digit (l.whole_digits c digit)
    have shape : l.text = signText l.sign ++ l.whole ++ exponentText l.exponent := by
      rw [Literal.text, Literal.body, fraction, fractionText, List.nil_append, List.append_assoc]
    have noDot : l.text.contains '.' = false := by
      rw [Bool.eq_false_iff, ne_eq, List.contains_iff_mem, shape]
      intro mem
      cases List.mem_append.mp mem with
      | inl front => exact (whole '.' front).1 rfl
      | inr back => exact (plain_exponentText l.exponent '.' back).1 rfl
    rw [noDot]
    simp
  | some f =>
    have after : ∀ c ∈ f ++ exponentText l.exponent, Plain c := by
      have digits := l.fraction_digits
      rw [fraction] at digits
      intro c mem
      cases List.mem_append.mp mem with
      | inl digit => exact plain_digit (digits c digit)
      | inr exponent => exact plain_exponentText l.exponent c exponent
    have shape : l.text =
        signText l.sign ++ l.whole ++ '.' :: (f ++ exponentText l.exponent) := by
      rw [Literal.text, Literal.body, fraction, fractionText, List.append_assoc, List.cons_append]
    have dot : l.text.contains '.' = true := by
      rw [shape]
      simp
    have last : (l.text.splitOn '.').getLast? = some (f ++ exponentText l.exponent) := by
      have noDot : '.' ∉ f ++ exponentText l.exponent := fun mem => (after '.' mem).1 rfl
      rw [shape, List.splitOn_append_cons_self, List.splitOn_eq_singleton noDot,
        List.getLast?_concat]
    have trimmed : ∀ c ∈ (f ++ exponentText l.exponent).rdropWhile (· == '0'), Plain c :=
      fun c mem => after c ((List.rdropWhile_prefix _ _).subset mem)
    rw [dot, last]
    simp only [if_true, byteLength_plain trimmed, decide_eq_true_eq]

/- What is accepted. -/

def Accepted (PRECISION : UInt8) (l : Literal) : Prop :=
  RoundsIntoRange l.value ∧ l.countAfterDot ≤ PRECISION.toNat

theorem isValidStringValue_literal (PRECISION : UInt8) {value : String} {l : Literal}
    (text : l.text = value.toList) : isValidStringValue PRECISION value =
      .ok (isValidRange (F32.round l.number) && isValidPrecisionLength PRECISION value) := by
  rw [isValidStringValue, isValidFloatString, parseF32, parseFloat_literal.mpr text]
  rfl

theorem fromString_literal (PRECISION : UInt8) {value : String} {l : Literal}
    (text : l.text = value.toList) :
    (∃ x, fromString PRECISION value = .ok x) ↔ Accepted PRECISION l := by
  rw [Accepted, Literal.value, ← isValidRange_round, ← isValidPrecisionLength_iff PRECISION text,
    ← Bool.and_eq_true, fromString, isValidStringValue_literal PRECISION text,
    isValidFloatString, parseF32, parseFloat_literal.mpr text]
  cases isValidRange (F32.round l.number) && isValidPrecisionLength PRECISION value with
  | true => exact iff_of_true ⟨_, rfl⟩ rfl
  | false =>
    refine iff_of_false ?_ Bool.false_ne_true
    rintro ⟨x, accepted⟩
    cases accepted

theorem fromString_other (PRECISION : UInt8) {value : String}
    (other : ∀ l : Literal, l.text ≠ value.toList) :
    ¬ ∃ x, fromString PRECISION value = .ok x := by
  rintro ⟨x, accepted⟩
  unfold fromString isValidStringValue isValidFloatString parseF32 at accepted
  cases parsed : parseFloat value with
  | error e =>
    rw [parsed] at accepted
    cases accepted
  | ok float =>
    rw [parsed] at accepted
    cases float with
    | number l => exact other l (parseFloat_literal.mp parsed)
    | infinite negative => cases accepted
    | nan => cases accepted

/-- Where the checks say what they should: outside of the range no rounding brings a number in
that has few enough characters after the dot, and inside, where there is an exponent, these
characters are few enough just if the decimals are. -/
def Judged (PRECISION : UInt8) (l : Literal) : Prop :=
  (RoundsIntoRange l.value → ¬ (0 ≤ l.value ∧ l.value ≤ 100) →
    PRECISION.toNat < l.countAfterDot) ∧
  (l.exponent ≠ none → 0 ≤ l.value → l.value ≤ 100 →
    (l.countAfterDot ≤ PRECISION.toNat ↔ l.decimals ≤ PRECISION.toNat))

theorem roundsIntoRange_of_inside {q : ℚ} (low : 0 ≤ q) (high : q ≤ 100) : RoundsIntoRange q := by
  have below : (0 : ℚ) ≤ 2 ^ (-150 : ℤ) := by positivity
  have above : (0 : ℚ) ≤ 2 ^ (-18 : ℤ) := by positivity
  constructor <;> linarith

theorem judged_iff (PRECISION : UInt8) (l : Literal) :
    (Accepted PRECISION l ↔ IsPercentage PRECISION l.value) ↔ Judged PRECISION l := by
  unfold Accepted IsPercentage Judged
  rw [places_iff]
  by_cases inside : 0 ≤ l.value ∧ l.value ≤ 100
  · have rounds := roundsIntoRange_of_inside inside.1 inside.2
    by_cases plain : l.exponent = none
    · have count := countAfterDot_iff plain PRECISION.toNat
      simp [rounds, inside, plain, count]
    · simp [rounds, inside, plain]
  · have outside : ¬ (0 ≤ l.value ∧ l.value ≤ 100 ∧ l.decimals ≤ PRECISION.toNat) :=
      fun percentage => inside ⟨percentage.1, percentage.2.1⟩
    have vacuous : l.exponent ≠ none → 0 ≤ l.value → l.value ≤ 100 →
        (l.countAfterDot ≤ PRECISION.toNat ↔ l.decimals ≤ PRECISION.toNat) :=
      fun _ low high => absurd ⟨low, high⟩ inside
    rw [iff_false_right outside, and_iff_left vacuous]
    simp only [inside, not_false_eq_true, true_implies, not_and, not_le]

/-- The strings a percentage should be made of. -/
def Specified (PRECISION : UInt8) (value : String) : Prop :=
  ∃ q, Denotes value q ∧ IsPercentage PRECISION q

theorem specified_literal (PRECISION : UInt8) {value : String} {l : Literal}
    (text : l.text = value.toList) :
    Specified PRECISION value ↔ IsPercentage PRECISION l.value := by
  have denotes : Denotes value l.value := ⟨l, text, rfl⟩
  constructor
  · rintro ⟨q, same, percentage⟩
    rw [denotes.unique same]
    exact percentage
  · exact fun percentage => ⟨l.value, denotes, percentage⟩

/-- A string is accepted just if it should be, exactly where its literal is judged right. -/
theorem fromString_specified_iff (PRECISION : UInt8) (value : String) :
    ((∃ x, fromString PRECISION value = .ok x) ↔ Specified PRECISION value) ↔
      ∀ l : Literal, l.text = value.toList → Judged PRECISION l := by
  by_cases literal : ∃ l : Literal, l.text = value.toList
  · obtain ⟨l, text⟩ := literal
    rw [fromString_literal PRECISION text, specified_literal PRECISION text, judged_iff]
    constructor
    · intro judged l' text'
      rw [Literal.text_injective (text'.trans text.symm)]
      exact judged
    · exact fun judged => judged l text
  · have other : ∀ l : Literal, l.text ≠ value.toList := fun l text => literal ⟨l, text⟩
    have rejected := fromString_other PRECISION other
    have unspecified : ¬ Specified PRECISION value := by
      rintro ⟨q, ⟨l, text, _⟩, _⟩
      exact other l text
    exact iff_of_true (iff_of_false rejected unspecified) fun l text => absurd text (other l)

end Percentage
end Mercado
