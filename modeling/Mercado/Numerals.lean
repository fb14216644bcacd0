import Mathlib.Algebra.Group.Int.Defs

/-! `str::parse` on the integers that are stored as text, and that it reads back what
`to_string` has written. -/
namespace Mercado

def parseDigits (digits : List Char) : Option Nat :=
  if digits ≠ [] ∧ digits.all Char.isDigit then
    some (digits.foldl (fun n c => 10 * n + (c.toNat - '0'.toNat)) 0)
  else none

/-- `parse` of an `i64`: a sign and decimal digits, inside the 64 bits. -/
def parseI64 (text : String) : Option Int :=
  let value : Option Int := match text.toList with
    | '-' :: digits => (parseDigits digits).map fun n => -(n : Int)
    | '+' :: digits => (parseDigits digits).map Int.ofNat
    | digits => (parseDigits digits).map Int.ofNat
  value.filter fun n => -2 ^ 63 ≤ n && n < 2 ^ 63

theorem isDigit_of_mem_repr {n : Nat} {c : Char} (mem : c ∈ n.repr.toList) : c.isDigit = true := by
  rw [Nat.toList_repr] at mem
  exact Nat.isDigit_of_mem_toDigits (by decide) (by decide) mem

theorem parseDigits_repr (n : Nat) : parseDigits n.repr.toList = some n := by
  have nonempty : n.repr.toList ≠ [] := by simp
  have digits : n.repr.toList.all Char.isDigit = true :=
    List.all_eq_true.mpr fun c mem => isDigit_of_mem_repr mem
  rw [parseDigits, if_pos ⟨nonempty, digits⟩, Nat.toList_repr, ← Nat.ofDigitChars_eq_foldl,
    Nat.ofDigitChars_ten_toDigits]

theorem repr_injective {m n : Nat} (same : m.repr = n.repr) : m = n := by
  have parsed := parseDigits_repr m
  rw [same, parseDigits_repr n] at parsed
  exact (Option.some.inj parsed).symm

theorem parseI64_repr (n : Nat) :
    parseI64 n.repr = (some (n : Int)).filter fun n => -2 ^ 63 ≤ n && n < 2 ^ 63 := by
  have parsed := parseDigits_repr n
  have digit : ∀ c ∈ n.repr.toList, c.isDigit = true := fun c mem => isDigit_of_mem_repr mem
  unfold parseI64
  cases split : n.repr.toList with
  | nil => simp at split
  | cons c rest =>
    rw [split] at parsed digit
    have first := digit c List.mem_cons_self
    have unsigned : c ≠ '-' ∧ c ≠ '+' := by
      constructor <;> rintro rfl <;> contradiction
    split
    · rename_i same
      exact absurd (List.cons.inj same).1 unsigned.1
    · rename_i same
      exact absurd (List.cons.inj same).1 unsigned.2
    · rw [parsed]
      rfl

theorem parseI64_toString {n : Int} (low : -2 ^ 63 ≤ n) (high : n < 2 ^ 63) :
    parseI64 (toString n) = some n := by
  have inside : ((some n).filter fun n => -2 ^ 63 ≤ n && n < 2 ^ 63) = some n := by
    refine Option.filter_eq_some_iff.mpr ⟨rfl, ?_⟩
    rw [Bool.and_eq_true, decide_eq_true_eq, decide_eq_true_eq]
    exact ⟨low, high⟩
  rw [Int.toString_eq_repr, Int.repr_eq_if]
  by_cases sign : 0 ≤ n
  · rw [if_pos sign, parseI64_repr, Int.toNat_of_nonneg sign, inside]
  · have magnitude : -((-n).toNat : Int) = n := by omega
    rw [if_neg sign, parseI64, String.toList_append]
    simp only [String.reduceToList, List.cons_append, List.nil_append, parseDigits_repr]
    have negated : (some (-((-n).toNat : Int))).filter (fun n => -2 ^ 63 ≤ n && n < 2 ^ 63) =
        some n := by rw [magnitude, inside]
    exact negated

theorem parseI64_range {text : String} {n : Int} (parsed : parseI64 text = some n) :
    -2 ^ 63 ≤ n ∧ n < 2 ^ 63 := by
  have kept := (Option.filter_eq_some_iff.mp parsed).2
  simpa using kept

def I64Numeral (text : String) (n : Int) : Prop :=
  ∃ digits : List Char, digits ≠ [] ∧ (∀ c ∈ digits, c.isDigit = true) ∧
    ((text.toList = digits ∨ text.toList = '+' :: digits) ∧ n = Nat.ofDigitChars 10 digits 0 ∨
      text.toList = '-' :: digits ∧ n = -(Nat.ofDigitChars 10 digits 0 : Int)) ∧
    -2 ^ 63 ≤ n ∧ n < 2 ^ 63

theorem parseDigits_iff {digits : List Char} {n : Nat} : parseDigits digits = some n ↔
    digits ≠ [] ∧ (∀ c ∈ digits, c.isDigit = true) ∧ n = Nat.ofDigitChars 10 digits 0 := by
  rw [Nat.ofDigitChars_eq_foldl]
  unfold parseDigits
  split
  · rename_i valid
    rw [Option.some.injEq]
    exact ⟨fun value => ⟨valid.1, List.all_eq_true.mp valid.2, value.symm⟩,
      fun numeral => numeral.2.2.symm⟩
  · rename_i invalid
    exact ⟨nofun, fun numeral =>
      absurd ⟨numeral.1, List.all_eq_true.mpr numeral.2.1⟩ invalid⟩

theorem parseI64_iff {text : String} {n : Int} : parseI64 text = some n ↔ I64Numeral text n := by
  have range : ((-2 ^ 63 ≤ n && n < 2 ^ 63) = true) ↔ -2 ^ 63 ≤ n ∧ n < 2 ^ 63 := by simp
  have notSign : ∀ digits : List Char, (∀ c ∈ digits, c.isDigit = true) →
      ∀ c rest, digits = c :: rest → c ≠ '-' ∧ c ≠ '+' := by
    rintro digits digit c rest rfl
    have first := digit c List.mem_cons_self
    constructor <;> rintro rfl <;> contradiction
  rw [parseI64, Option.filter_eq_some_iff, range]
  unfold I64Numeral
  constructor
  · rintro ⟨value, low, high⟩
    split at value
    · rename_i digits shape
      cases parsed : parseDigits digits with
      | none => simp [parsed] at value
      | some m =>
        obtain ⟨nonempty, digit, rfl⟩ := parseDigits_iff.mp parsed
        rw [parsed] at value
        cases value
        exact ⟨digits, nonempty, digit, .inr ⟨shape, rfl⟩, low, high⟩
    · rename_i digits shape
      obtain ⟨m, parsed, rfl⟩ := Option.map_eq_some_iff.mp value
      obtain ⟨nonempty, digit, rfl⟩ := parseDigits_iff.mp parsed
      exact ⟨digits, nonempty, digit, .inl ⟨.inr shape, rfl⟩, low, high⟩
    · obtain ⟨m, parsed, rfl⟩ := Option.map_eq_some_iff.mp value
      obtain ⟨nonempty, digit, rfl⟩ := parseDigits_iff.mp parsed
      exact ⟨_, nonempty, digit, .inl ⟨.inl rfl, rfl⟩, low, high⟩
  · rintro ⟨digits, nonempty, digit, shape, low, high⟩
    have parsed := parseDigits_iff.mpr ⟨nonempty, digit, rfl⟩
    refine ⟨?_, low, high⟩
    rcases shape with ⟨shape | shape, rfl⟩ | ⟨shape, rfl⟩ <;> rw [shape]
    · cases digits with
      | nil => exact absurd rfl nonempty
      | cons c rest =>
        obtain ⟨minus, plus⟩ := notSign _ digit c rest rfl
        split
        · rename_i same
          exact absurd (List.cons.inj same).1 minus
        · rename_i same
          exact absurd (List.cons.inj same).1 plus
        · rw [parsed]
          rfl
    all_goals
      simp only [parsed]
      rfl

end Mercado
