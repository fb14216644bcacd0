import Mercado.Decimal.Number

/-! Amounts of a currency in its base unit and in its lower unit. A step of `f64` arithmetic is
exact here, and the text that is made of its result has the digits that the format string asks
for. -/
namespace Mercado

open Decimal

inductive Currency where
  | AED | ALL | AMD | ANG | AOA | ARS | AUD | AWG | AZN | BAM | BBD | BDT | BGN | BHD
  | BIF | BMD | BND | BOB | BRL | BSD | BWP | BYN | BZD | CAD | CHF | CLP | CNY | COP
  | CRC | CUP | CVE | CZK | DJF | DKK | DOP | DZD | EGP | ETB | EUR | FJD | FKP | GBP
  | GEL | GHS | GIP | GMD | GNF | GTQ | GYD | HKD | HNL | HRK | HTG | HUF | IDR | ILS
  | INR | IQD | JMD | JOD | JPY | KES | KGS | KHR | KMF | KRW | KWD | KYD | KZT | LAK
  | LBP | LKR | LRD | LSL | LYD | MAD | MDL | MGA | MKD | MMK | MNT | MOP | MRU | MUR
  | MVR | MWK | MXN | MYR | MZN | NAD | NGN | NIO | NOK | NPR | NZD | OMR | PAB | PEN
  | PGK | PHP | PKR | PLN | PYG | QAR | RON | RSD | RUB | RWF | SAR | SBD | SCR | SEK
  | SGD | SHP | SLE | SLL | SOS | SRD | SSP | STN | SVC | SZL | THB | TND | TOP | TRY
  | TTD | TWD | TZS | UAH | UGX | USD | UYU | UZS | VES | VND | VUV | WST | XAF | XCD
  | XOF | XPF | YER | ZAR | ZMW
  deriving DecidableEq, Repr

/-- An `f64`, its arithmetic without rounding. -/
inductive ExactF64 where
  | finite (n : Number)
  | infinite (negative : Bool)
  | nan

def ExactF64.shift (k : ℕ) : ExactF64 → ExactF64
  | finite n => .finite (n.shift k)
  | infinite negative => .infinite negative
  | nan => .nan

def ExactF64.toString : ExactF64 → String
  | finite n => String.ofList n.display.text
  | infinite negative => if negative then "-inf" else "inf"
  | nan => "NaN"

def ExactF64.ofParsed : Parsed → ExactF64
  | .number l => .finite l.number
  | .infinite negative => .infinite negative
  | .nan => .nan

def parseF64 (text : String) : Except ParseFloatError ExactF64 :=
  (parseFloat text).map ExactF64.ofParsed

inductive TryFromIntError where
  | outOfRange
  deriving DecidableEq, Repr

def u32TryFrom (n : ℤ) : Except TryFromIntError ℕ :=
  if 0 ≤ n ∧ n < 2 ^ 32 then .ok n.toNat else .error .outOfRange

namespace Currency

def isZeroDecimalCurrency : Currency → Bool
  | BIF | CLP | DJF | GNF | JPY | KMF | KRW | MGA | PYG | RWF | UGX | VND | VUV | XAF | XOF
  | XPF => true
  | _ => false

def isThreeDecimalCurrency : Currency → Bool
  | BHD | IQD | JOD | KWD | LYD | OMR | TND => true
  | _ => false

def toCurrencyBaseUnitAsf64 (c : Currency) (amount : ℤ) : Except TryFromIntError Number := do
  let amountF64 : Number := ⟨false, ← u32TryFrom amount, 0⟩
  return if c.isZeroDecimalCurrency then amountF64
    else if c.isThreeDecimalCurrency then amountF64.shift (-3)
    else amountF64.shift (-2)

def toCurrencyBaseUnit (c : Currency) (amount : ℤ) : Except TryFromIntError String := do
  let amountF64 ← c.toCurrencyBaseUnitAsf64 amount
  return String.ofList (amountF64.fixed 2).text

def toCurrencyLowerUnit (c : Currency) (amount : String) : Except ParseFloatError String := do
  let amountF64 ← parseF64 amount
  let amountString :=
    if c.isZeroDecimalCurrency then amountF64
    else if c.isThreeDecimalCurrency then amountF64.shift 3
    else amountF64.shift 2
  return amountString.toString

def decimals (c : Currency) : ℕ :=
  if c.isZeroDecimalCurrency then 0 else if c.isThreeDecimalCurrency then 3 else 2

theorem zero_not_three {c : Currency} (three : c.isThreeDecimalCurrency = true) :
    c.isZeroDecimalCurrency = false := by
  cases c <;> first | rfl | cases three

theorem asf64_eq (c : Currency) (amount : UInt32) :
    c.toCurrencyBaseUnitAsf64 amount.toNat = .ok ⟨false, amount.toNat, -c.decimals⟩ := by
  have fits : u32TryFrom amount.toNat = .ok amount.toNat := by
    have below := amount.toNat_lt
    rw [u32TryFrom, if_pos (by omega)]
    rfl
  unfold toCurrencyBaseUnitAsf64 decimals
  rw [fits]
  cases c.isZeroDecimalCurrency with
  | true => rfl
  | false => cases c.isThreeDecimalCurrency <;> rfl

theorem lowerUnit_eq (c : Currency) (l : Literal) :
    c.toCurrencyLowerUnit (String.ofList l.text) =
      .ok (String.ofList (l.number.shift c.decimals).display.text) := by
  have parsed : parseF64 (String.ofList l.text) = .ok (.finite l.number) := by
    have read := parseFloat_literal.mpr (String.toList_ofList (l := l.text)).symm
    rw [parseF64, read]
    rfl
  have unscaled : l.number.shift 0 = l.number := by simp [Number.shift]
  unfold toCurrencyLowerUnit decimals
  rw [parsed]
  cases c.isZeroDecimalCurrency with
  | true =>
    show Except.ok (String.ofList l.number.display.text) =
      .ok (String.ofList (l.number.shift 0).display.text)
    rw [unscaled]
  | false => cases c.isThreeDecimalCurrency <;> rfl

def hundredths (c : Currency) (amount : UInt32) : ℕ :=
  roundHalfEven (amount.toNat * 10 ^ (-c.decimals : ℤ) * 10 ^ 2)

theorem baseUnit_number (c : Currency) (amount : UInt32) :
    ∃ l : Literal, c.toCurrencyBaseUnit amount.toNat = .ok (String.ofList l.text) ∧
      l.number = ⟨false, c.hundredths amount, -2⟩ := by
  refine ⟨Number.fixed 2 ⟨false, amount.toNat, -c.decimals⟩, ?_,
    Number.fixed_number (by decide) _⟩
  rw [toCurrencyBaseUnit, asf64_eq]
  rfl

/-- The text is exact and is read back. -/
def Lossless (c : Currency) (amount : UInt32) : Prop :=
  ∃ text, c.toCurrencyBaseUnit amount.toNat = .ok text ∧
    Denotes text (amount.toNat / 10 ^ c.decimals) ∧
    c.toCurrencyLowerUnit text = .ok (toString amount.toNat)

theorem lossless_iff_hundredths (c : Currency) (amount : UInt32) :
    c.Lossless amount ↔ (c.hundredths amount / 100 : ℚ) = amount.toNat / 10 ^ c.decimals := by
  obtain ⟨l, shown, number⟩ := c.baseUnit_number amount
  have value : l.value = c.hundredths amount / 100 := by
    rw [Literal.value, number, Number.value, Number.magnitude, div_eq_mul_inv]
    norm_num
  have denotes : Denotes (String.ofList l.text) l.value := ⟨l, by rw [String.toList_ofList], rfl⟩
  constructor
  · rintro ⟨text, same, exact, _⟩
    rw [shown] at same
    cases same
    rw [← value]
    exact denotes.unique exact
  · intro exact
    refine ⟨_, shown, ?_, ?_⟩
    · rw [← exact, ← value]
      exact denotes
    · have natural : (l.number.shift c.decimals).magnitude = amount.toNat := by
        have scale : (10 : ℚ) ^ c.decimals ≠ 0 := by positivity
        rw [Number.magnitude_shift, number, Number.magnitude, zpow_natCast]
        field_simp at exact
        norm_num
        linarith
      have positive : (l.number.shift c.decimals).negative = false := by rw [number]; rfl
      rw [lowerUnit_eq, Number.display_natural positive natural, Nat.toString_eq_repr,
        Nat.repr_eq_ofList_toDigits]

theorem hundredths_of_whole {c : Currency} {amount : UInt32} {k : ℕ}
    (whole : (amount.toNat * 10 ^ (-c.decimals : ℤ) * 10 ^ 2 : ℚ) = k) :
    c.hundredths amount = k := by
  rw [hundredths, whole, roundHalfEven_natCast]

/-- The text is exact, and is read back, but for a currency with three decimals whose third
decimal is not zero: a text has two. -/
theorem conversion_lossless (c : Currency) (amount : UInt32) :
    c.Lossless amount ↔ (c.isThreeDecimalCurrency = true → amount.toNat % 10 = 0) := by
  rw [lossless_iff_hundredths]
  cases three : c.isThreeDecimalCurrency with
  | true =>
    have decimals : c.decimals = 3 := by
      rw [decimals, zero_not_three three, three]
      rfl
    rw [decimals]
    constructor
    · intro exact _
      have scaled : amount.toNat = 10 * c.hundredths amount := by
        have exact' : (amount.toNat : ℚ) = 10 * c.hundredths amount := by
          norm_num at exact
          linarith
        exact_mod_cast exact'
      omega
    · intro multiple
      obtain ⟨k, shape⟩ := Nat.dvd_of_mod_eq_zero (multiple rfl)
      have whole : c.hundredths amount = k := by
        apply hundredths_of_whole
        rw [decimals, shape]
        norm_num
        ring
      rw [whole, shape]
      push_cast
      ring
  | false =>
    cases zero : c.isZeroDecimalCurrency with
    | true =>
      have decimals : c.decimals = 0 := by
        rw [decimals, zero]
        rfl
      have whole : c.hundredths amount = amount.toNat * 100 := by
        apply hundredths_of_whole
        rw [decimals]
        norm_num
      simp [whole, decimals]
    | false =>
      have decimals : c.decimals = 2 := by
        rw [decimals, zero, three]
        rfl
      have whole : c.hundredths amount = amount.toNat := by
        apply hundredths_of_whole
        rw [decimals]
        norm_num
        ring
      rw [whole, decimals]
      norm_num

/-- One thousandth of a dinar becomes no dinar. -/
theorem thousandth_lost : KWD.toCurrencyBaseUnit 1 = .ok "0.00" ∧ ¬ KWD.Lossless 1 := by
  have none : KWD.hundredths 1 = 0 := by decide +kernel
  have one : (1 : UInt32).toNat = 1 := by decide
  have decimals : KWD.decimals = 3 := by decide
  constructor
  · decide +kernel
  · rw [lossless_iff_hundredths, none, one, decimals]
    norm_num

end Currency
end Mercado
