import Mercado.Decimal.Number
import Mercado.Serde.Json

/-! JSON numbers as text: what serde_json reads from a number, and how it shows what it has
read. An `f64` is shown by the shortest decimal that stands for it, in exponent notation where
it is very small or very large. -/
namespace SerdeJson

open Decimal (Literal AllDigits Sign allDigits_zeros)

/-- A number of the JSON grammar: without a plus sign or a needless zero in front, with digits
on both sides of a dot. -/
structure NumberText where
  literal : Literal
  unsigned : literal.sign ≠ some .plus
  whole : literal.whole ≠ []
  leading : literal.whole.head? = some '0' → literal.whole.length = 1
  fraction : literal.fraction ≠ some []

inductive Json where
  | null
  | bool (b : Bool)
  | number (n : NumberText)
  | string (s : String)
  | array (items : List Json)
  | object (entries : List (String × Json))

/-- The conversions that are not part of the modelled code: from the text of a number to the
bits of an `f64`, unless it is out of range, from the bits to the shortest decimal, and from a
string to the text between its quotation marks. -/
structure Lexical where
  readFloat : Literal → Option UInt64
  shortest : UInt64 → Decimal.Number
  escape : String → String

def intLiteral (n : Int) : Literal where
  sign := if n < 0 then some .minus else none
  whole := Nat.toDigits 10 n.natAbs
  fraction := none
  exponent := none
  whole_digits := Decimal.allDigits_toDigits _
  fraction_digits := AllDigits.nil
  nonempty := by simp

def ryuExponent (e : Int) : Decimal.Exponent where
  marker := 'e'
  sign := if e < 0 then some .minus else none
  digits := Nat.toDigits 10 e.natAbs
  marker_e := .inl rfl
  nonempty := Nat.toDigits_ne_nil
  all_digits := Decimal.allDigits_toDigits _

def ryuPoint (n : Decimal.Number) : Int := (Nat.toDigits 10 n.mantissa).length + n.exponent

/-- The text of an `f64`: `1234e7` as `12340000000.0`, `1234e-2` as `12.34`, `1234e-6` as
`0.001234`, and the rest as `1.234e33`. -/
def ryu (n : Decimal.Number) : Literal :=
  let digits := Nat.toDigits 10 n.mantissa
  let point := ryuPoint n
  have digit : AllDigits digits := Decimal.allDigits_toDigits _
  if n.mantissa = 0 then
    ⟨n.sign, ['0'], some ['0'], none, allDigits_zeros 1, allDigits_zeros 1, by simp⟩
  else if 0 ≤ n.exponent ∧ point ≤ 16 then
    ⟨n.sign, digits ++ List.replicate n.exponent.toNat '0', some ['0'], none,
      digit.append (allDigits_zeros _), allDigits_zeros 1, by simp⟩
  else if 0 < point ∧ point ≤ 16 then
    ⟨n.sign, digits.take point.toNat, some (digits.drop point.toNat), none,
      digit.take _, digit.drop _, by simp [digits]⟩
  else if -5 < point ∧ point ≤ 0 then
    ⟨n.sign, ['0'], some (List.replicate (-point).toNat '0' ++ digits), none,
      allDigits_zeros 1, (allDigits_zeros _).append digit, by simp⟩
  else if digits.length = 1 then
    ⟨n.sign, digits, none, some (ryuExponent (point - 1)), digit,
      AllDigits.nil, by simp [digits]⟩
  else
    ⟨n.sign, digits.take 1, some (digits.drop 1), some (ryuExponent (point - 1)),
      digit.take _, digit.drop _, by simp [digits]⟩

theorem exponentValue_ryu (e : Int) : Decimal.exponentValue (some (ryuExponent e)) = e := by
  unfold Decimal.exponentValue ryuExponent
  dsimp only
  rw [Nat.ofDigitChars_ten_toDigits]
  by_cases negative : e < 0
  · rw [if_pos negative, if_pos rfl]
    omega
  · rw [if_neg negative, if_neg (by decide)]
    omega

theorem value_of_parts {l : Literal} {n : Decimal.Number} (sign : l.sign = n.sign)
    (magnitude : (Nat.ofDigitChars 10 l.digits 0 : ℚ) *
      10 ^ (Decimal.exponentValue l.exponent - (l.fraction.getD []).length) = n.magnitude) :
    l.value = n.value := by
  have negative : l.number.negative = n.negative := by
    show decide (l.sign = some .minus) = n.negative
    rw [sign, n.sign_negative]
  have same : l.number.magnitude = n.magnitude := magnitude
  rw [Literal.value, Decimal.Number.value, Decimal.Number.value, negative, same]

theorem intLiteral_value (n : Int) : (intLiteral n).value = n := by
  have shown : (intLiteral n).value = Decimal.Number.value ⟨decide (n < 0), n.natAbs, 0⟩ := by
    apply value_of_parts
    · by_cases negative : n < 0 <;> simp [intLiteral, Decimal.Number.sign, negative]
    · show (Nat.ofDigitChars 10 (Nat.toDigits 10 n.natAbs ++ []) 0 : ℚ) * 10 ^ (0 - 0 : ℤ) =
        n.natAbs * 10 ^ (0 : ℤ)
      rw [List.append_nil, Nat.ofDigitChars_ten_toDigits, sub_zero]
  have magnitude : (n.natAbs : ℚ) = |(n : ℚ)| := by
    rw [Nat.cast_natAbs, Int.cast_abs]
  rw [shown, Decimal.Number.value, Decimal.Number.magnitude, zpow_zero, mul_one, magnitude]
  by_cases negative : n < 0
  · have below : (n : ℚ) < 0 := by exact_mod_cast negative
    rw [decide_eq_true negative, if_pos rfl, abs_of_neg below, neg_neg]
  · have above : (0 : ℚ) ≤ n := by exact_mod_cast not_lt.mp negative
    rw [decide_eq_false negative, if_neg Bool.false_ne_true, abs_of_nonneg above]

theorem value_of_digits {l : Literal} {n : Decimal.Number} (sign : l.sign = n.sign)
    (digits : Nat.ofDigitChars 10 l.digits 0 = n.mantissa)
    (place : Decimal.exponentValue l.exponent - (l.fraction.getD []).length = n.exponent) :
    l.value = n.value := by
  apply value_of_parts sign
  rw [digits, place]
  rfl

/-- The text stands for the decimal. -/
theorem ryu_value (n : Decimal.Number) : (ryu n).value = n.value := by
  have length : 0 < (Nat.toDigits 10 n.mantissa).length := Nat.length_toDigits_pos
  have mantissa : Nat.ofDigitChars 10 (Nat.toDigits 10 n.mantissa) 0 = n.mantissa :=
    Nat.ofDigitChars_ten_toDigits
  unfold ryu
  dsimp only
  split_ifs with zero integer inside small single
  · apply value_of_parts rfl
    simp [Literal.digits, Nat.ofDigitChars, Decimal.Number.magnitude, zero]
  · apply value_of_parts rfl
    obtain ⟨k, exponent⟩ := Int.eq_ofNat_of_zero_le integer.1
    simp only [Literal.digits, Option.getD_some, Nat.ofDigitChars_append,
      Nat.ofDigitChars_replicate_zero, mantissa, exponent, Int.toNat_natCast]
    simp [Nat.ofDigitChars, Decimal.exponentValue, Decimal.Number.magnitude, exponent]
    field_simp
  · apply value_of_digits rfl
    · simp only [Literal.digits, Option.getD_some, List.take_append_drop, mantissa]
    · simp only [Option.getD_some, Decimal.exponentValue, List.length_drop]
      unfold ryuPoint at inside integer ⊢
      omega
  · apply value_of_digits rfl
    · simp only [Literal.digits, Option.getD_some, Nat.ofDigitChars_append,
        Nat.ofDigitChars_replicate_zero]
      simpa [Nat.ofDigitChars] using mantissa
    · simp only [Option.getD_some, Decimal.exponentValue, List.length_append,
        List.length_replicate]
      unfold ryuPoint at small ⊢
      omega
  · apply value_of_digits rfl
    · simp only [Literal.digits, Option.getD_none, List.append_nil, mantissa]
    · simp only [Option.getD_none, exponentValue_ryu, List.length_nil]
      unfold ryuPoint
      omega
  · apply value_of_digits rfl
    · simp only [Literal.digits, Option.getD_some, List.take_append_drop, mantissa]
    · simp only [Option.getD_some, exponentValue_ryu, List.length_drop]
      unfold ryuPoint
      omega

/- What is read, and how it is written again. -/

namespace Lexical

variable (lex : Lexical)

/-- A number without dot and exponent is an integer where one of 64 bits can hold it; minus zero
is an `f64`. -/
def readNumber (l : Literal) : Option Number :=
  let float := (lex.readFloat l).map .float
  if l.fraction = none ∧ l.exponent.isNone then
    let significand := Nat.ofDigitChars 10 l.digits 0
    if l.sign = some .minus then
      if 0 < significand ∧ significand ≤ 2 ^ 63 then some (.int (-significand)) else float
    else if significand < 2 ^ 64 then some (.int significand) else float
  else float

mutual

def read : Json → Option Value
  | .null => some .null
  | .bool b => some (.bool b)
  | .number n => (lex.readNumber n.literal).map .number
  | .string s => some (.string s)
  | .array items => (readItems items).map .array
  | .object entries => (readEntries entries).map .object

def readItems : List Json → Option (List Value)
  | [] => some []
  | j :: items => do return (← read j) :: (← readItems items)

def readEntries : List (String × Json) → Option (List (String × Value))
  | [] => some []
  | (key, j) :: entries => do return (key, ← read j) :: (← readEntries entries)

end

def nextValue (j : Json) : Option Value := (lex.read j).map Value.collect

def literal : Number → Literal
  | .int n => intLiteral n
  | .float bits => ryu (lex.shortest bits)

def quoted (s : String) : List Char := '"' :: ((lex.escape s).toList ++ ['"'])

mutual

def text : Value → List Char
  | .null => "null".toList
  | .bool b => (if b then "true" else "false").toList
  | .number n => (lex.literal n).text
  | .string s => lex.quoted s
  | .array items => '[' :: ([','].intercalate (itemTexts items) ++ [']'])
  | .object entries => '{' :: ([','].intercalate (entryTexts entries) ++ ['}'])

def itemTexts : List Value → List (List Char)
  | [] => []
  | j :: items => text j :: itemTexts items

def entryTexts : List (String × Value) → List (List Char)
  | [] => []
  | (key, j) :: entries => (lex.quoted key ++ ':' :: text j) :: entryTexts entries

end

theorem readNumber_int {l : Literal} {n : Int} (read : lex.readNumber l = some (.int n)) :
    l.value = n := by
  have notFloat : (lex.readFloat l).map Number.float ≠ some (.int n) := by
    cases lex.readFloat l <;> simp
  unfold readNumber at read
  dsimp only at read
  split at read
  · rename_i integer
    have fraction : l.fraction = none := integer.1
    have exponent : l.exponent = none := Option.isNone_iff_eq_none.mp integer.2
    have magnitude : l.number.magnitude = Nat.ofDigitChars 10 l.digits 0 := by
      simp [Decimal.Number.magnitude, Literal.number, fraction, exponent, Decimal.exponentValue]
    unfold Literal.value Decimal.Number.value
    rw [magnitude]
    split at read
    · rename_i minus
      have negative : l.number.negative = true := decide_eq_true minus
      split at read
      · cases read
        rw [negative, if_pos rfl]
        push_cast
        rfl
      · exact absurd read notFloat
    · rename_i plus
      have negative : l.number.negative = false := decide_eq_false plus
      split at read
      · cases read
        rw [negative, if_neg Bool.false_ne_true]
        push_cast
        rfl
      · exact absurd read notFloat
  · exact absurd read notFloat

theorem text_ne_of_head {c : Char} {rest : List Char}
    (other : ¬ (c.isDigit = true ∨ c = '.' ∨ c = '+' ∨ c = '-')) (l : Literal) :
    l.text ≠ c :: rest := by
  obtain ⟨d, tail, shape, first⟩ := l.text_head
  rw [shape]
  rintro same
  rw [(List.cons.inj same).1] at first
  exact other first

theorem text_not_literal {j : Value} (other : ∀ n, j ≠ .number n) (l : Literal) :
    l.text ≠ lex.text j := by
  cases j with
  | null => exact text_ne_of_head (by decide) l
  | bool b => cases b <;> exact text_ne_of_head (by decide) l
  | number n => exact absurd rfl (other n)
  | string s => exact text_ne_of_head (by decide) l
  | array items => exact text_ne_of_head (by decide) l
  | object entries => exact text_ne_of_head (by decide) l

end Lexical

end SerdeJson
