import Mercado.Percentage.Parsing
import Mercado.Serde.Numbers

/-! A percentage as JSON: the number is read as a `Value`, written again, and the text is
checked as a string. -/
namespace Mercado.Percentage

open Decimal Results SerdeJson

section

variable (lex : Lexical) (PRECISION : UInt8)

def visitEntries (percentageValue : Option Value) :
    List (String × Json) → Except Error (Option Value)
  | [] => .ok percentageValue
  | (key, j) :: entries =>
    if key = "percentage" then
      if percentageValue.isSome then .error (.duplicateField "percentage")
      else match lex.nextValue j with
        | some value => visitEntries (some value) entries
        | none => .error (.custom "number out of range")
    else visitEntries percentageValue entries

def invalidValue (unexpected expected : String) : Error :=
  .custom s!"invalid value: {unexpected}, expected {expected}"

def visitMap (entries : List (String × Json)) : Except Error (Percentage PRECISION) := do
  match ← visitEntries lex none entries with
  | some value =>
    let stringValue := String.ofList (lex.text value)
    (fromString PRECISION stringValue).mapError fun _ =>
      invalidValue s!"percentage value {stringValue}" (getInvalidPercentageErrorMessage PRECISION)
  | none => .error (.missingField "percentage")

def deserialize : Json → Except Error (Percentage PRECISION)
  | .object entries => visitMap lex PRECISION entries
  | _ => .error .invalidType

theorem visitEntries_some {lex : Lexical} {value : Value} {entries : List (String × Json)}
    {result : Option Value} : visitEntries lex (some value) entries = .ok result ↔
      entriesOf "percentage" entries = [] ∧ result = some value := by
  induction entries with
  | nil => simp [visitEntries, eq_comm]
  | cons e entries ih =>
    obtain ⟨key, j⟩ := e
    rw [visitEntries, entriesOf_cons]
    split
    · simp
    · exact ih

theorem visitEntries_none {lex : Lexical} {entries : List (String × Json)} {value : Value} :
    visitEntries lex none entries = .ok (some value) ↔
      ∃ j, entriesOf "percentage" entries = [("percentage", j)] ∧ lex.nextValue j = some value := by
  induction entries with
  | nil => simp [visitEntries]
  | cons e entries ih =>
    obtain ⟨key, j⟩ := e
    rw [visitEntries, entriesOf_cons]
    split
    · rename_i same
      subst same
      cases read : lex.nextValue j with
      | none => simp [read]
      | some first =>
        simp only [Option.isSome_none, Bool.false_eq_true, if_false, visitEntries_some]
        constructor
        · rintro ⟨last, same⟩
          cases same
          exact ⟨j, by rw [last], read⟩
        · rintro ⟨j', only, found⟩
          have parts := List.cons.inj only
          cases parts.1
          rw [read] at found
          exact ⟨parts.2, found.symm⟩
    · exact ih

theorem visitMap_iff {entries : List (String × Json)} :
    (∃ x, visitMap lex PRECISION entries = .ok x) ↔
      ∃ j value, entriesOf "percentage" entries = [("percentage", j)] ∧
        lex.nextValue j = some value ∧
        ∃ x, fromString PRECISION (String.ofList (lex.text value)) = .ok x := by
  constructor
  · rintro ⟨x, accepted⟩
    obtain ⟨found, visited, accepted⟩ := bind_ok.mp accepted
    cases found with
    | none => cases accepted
    | some value =>
      obtain ⟨j, only, read⟩ := visitEntries_none.mp visited
      refine ⟨j, value, only, read, x, ?_⟩
      dsimp only at accepted
      cases parsed : fromString PRECISION (String.ofList (lex.text value)) with
      | error e =>
        rw [parsed] at accepted
        cases accepted
      | ok y =>
        rw [parsed] at accepted
        have same : y = x := Except.ok.inj accepted
        rw [same]
  · rintro ⟨j, value, only, read, x, accepted⟩
    refine ⟨x, bind_ok.mpr ⟨some value, visitEntries_none.mpr ⟨j, only, read⟩, ?_⟩⟩
    dsimp only
    rw [accepted]
    rfl

theorem nextValue_other {j : Json} (other : ∀ n, j ≠ .number n) {value : Value}
    (read : lex.nextValue j = some value) (n : SerdeJson.Number) : value ≠ .number n := by
  rintro rfl
  unfold Lexical.nextValue at read
  cases j with
  | number n => exact other n rfl
  | null | bool | string => simp [Lexical.read, Value.collect] at read
  | array | object => simp [Lexical.read, Value.collect] at read

theorem nextValue_number (n : NumberText) :
    lex.nextValue (.number n) = (lex.readNumber n.literal).map .number := by
  unfold Lexical.nextValue
  rw [Lexical.read, Option.map_map]
  rfl

def HasPercentage (entries : List (String × Json)) (n : NumberText) : Prop :=
  entriesOf "percentage" entries = [("percentage", .number n)]

theorem HasPercentage.unique {entries : List (String × Json)} {n n' : NumberText}
    (has : HasPercentage entries n) (has' : HasPercentage entries n') : n' = n := by
  have same := has'.symm.trans has
  cases same
  rfl

/-- Only numbers are accepted, and they are judged by the text of what was read. -/
theorem deserialize_iff (entries : List (String × Json)) :
    (∃ x, deserialize lex PRECISION (.object entries) = .ok x) ↔
      ∃ n, HasPercentage entries n ∧ ∃ number, lex.readNumber n.literal = some number ∧
        Accepted PRECISION (lex.literal number) := by
  have shown : ∀ number : SerdeJson.Number, (lex.literal number).text =
      (String.ofList (lex.text (.number number))).toList := by
    intro number
    rw [String.toList_ofList, Lexical.text]
  show (∃ x, visitMap lex PRECISION entries = .ok x) ↔ _
  rw [visitMap_iff]
  constructor
  · rintro ⟨j, value, only, read, accepted⟩
    by_cases isNumber : ∃ n, j = .number n
    · obtain ⟨n, rfl⟩ := isNumber
      rw [nextValue_number] at read
      obtain ⟨number, found, rfl⟩ := Option.map_eq_some_iff.mp read
      exact ⟨n, only, number, found, (fromString_literal PRECISION (shown number)).mp accepted⟩
    · have other : ∀ n, j ≠ .number n := fun n same => isNumber ⟨n, same⟩
      have text : ∀ l : Literal, l.text ≠ (String.ofList (lex.text value)).toList := by
        intro l
        rw [String.toList_ofList]
        exact lex.text_not_literal (nextValue_other lex other read) l
      exact absurd accepted (fromString_other PRECISION text)
  · rintro ⟨n, only, number, found, accepted⟩
    refine ⟨.number n, .number number, only, ?_,
      (fromString_literal PRECISION (shown number)).mpr accepted⟩
    rw [nextValue_number, found]
    rfl

theorem judged_int (n : Int) : Judged PRECISION (intLiteral n) := by
  constructor
  · rw [intLiteral_value]
    rintro ⟨low, high⟩ outside
    have lower : (-1 : ℚ) < n := by
      have tiny : (2 : ℚ) ^ (-150 : ℤ) < 1 := zpow_lt_one_of_neg₀ (by decide) (by decide)
      linarith
    have upper : (n : ℚ) < 101 := by
      have small : (2 : ℚ) ^ (-18 : ℤ) < 1 := zpow_lt_one_of_neg₀ (by decide) (by decide)
      linarith
    have lower' : -1 < n := by exact_mod_cast lower
    have upper' : n < 101 := by exact_mod_cast upper
    have inside : 0 ≤ n ∧ n ≤ 100 := by omega
    exact absurd ⟨by exact_mod_cast inside.1, by exact_mod_cast inside.2⟩ outside
  · exact fun exponent => absurd rfl exponent

/-- Where a number is judged right: what serde_json reads as an integer always, and what it
reads as an `f64`, if that has the property just as the number has and is itself judged right.
A number that is out of range for an `f64` is rejected. -/
def NumberJudged (n : NumberText) : Prop :=
  match lex.readNumber n.literal with
  | none => ¬ IsPercentage PRECISION n.literal.value
  | some (.int _) => True
  | some (.float bits) =>
    (IsPercentage PRECISION n.literal.value ↔
      IsPercentage PRECISION (lex.shortest bits).value) ↔
      Judged PRECISION (ryu (lex.shortest bits))

theorem numberJudged_iff (n : NumberText) :
    ((∃ number, lex.readNumber n.literal = some number ∧
        Accepted PRECISION (lex.literal number)) ↔ IsPercentage PRECISION n.literal.value) ↔
      NumberJudged lex PRECISION n := by
  unfold NumberJudged
  cases read : lex.readNumber n.literal with
  | none => simp
  | some number =>
    have only : (∃ number', some number = some number' ∧
        Accepted PRECISION (lex.literal number')) ↔ Accepted PRECISION (lex.literal number) := by
      simp
    rw [only]
    cases number with
    | int m =>
      have value : n.literal.value = (lex.literal (.int m)).value := by
        rw [lex.readNumber_int read]
        exact (intLiteral_value m).symm
      rw [value]
      exact iff_of_true ((judged_iff PRECISION _).mpr (judged_int PRECISION m)) trivial
    | float bits =>
      have judged := judged_iff PRECISION (ryu (lex.shortest bits))
      rw [ryu_value] at judged
      show (Accepted PRECISION (ryu (lex.shortest bits)) ↔ _) ↔
        ((_ ↔ _) ↔ Judged PRECISION (ryu (lex.shortest bits)))
      rw [← judged]
      tauto

theorem deserialize_specified_iff (entries : List (String × Json)) :
    ((∃ x, deserialize lex PRECISION (.object entries) = .ok x) ↔
      ∃ n, HasPercentage entries n ∧ IsPercentage PRECISION n.literal.value) ↔
      ∀ n, HasPercentage entries n → NumberJudged lex PRECISION n := by
  rw [deserialize_iff]
  by_cases number : ∃ n, HasPercentage entries n
  · obtain ⟨n, has⟩ := number
    have only : ∀ P : NumberText → Prop, (∃ n', HasPercentage entries n' ∧ P n') ↔ P n := by
      intro P
      constructor
      · rintro ⟨n', has', holds⟩
        exact has.unique has' ▸ holds
      · exact fun holds => ⟨n, has, holds⟩
    have accepted := only fun n' => ∃ number, lex.readNumber n'.literal = some number ∧
      Accepted PRECISION (lex.literal number)
    rw [accepted, only, numberJudged_iff]
    constructor
    · intro judged n' has'
      rw [has.unique has']
      exact judged
    · exact fun judged => judged n has
  · have rejected : ¬ ∃ n, HasPercentage entries n ∧
        ∃ number, lex.readNumber n.literal = some number ∧
          Accepted PRECISION (lex.literal number) := fun ⟨n, has, _⟩ => number ⟨n, has⟩
    have unspecified : ¬ ∃ n, HasPercentage entries n ∧ IsPercentage PRECISION n.literal.value :=
      fun ⟨n, has, _⟩ => number ⟨n, has⟩
    exact iff_of_true (iff_of_false rejected unspecified) fun n has => absurd ⟨n, has⟩ number

/-- A percentage is accepted just if it should be: a string exactly where its literal is judged
right, a JSON object exactly where the number of its percentage is. -/
theorem percentage_parsing :
    (∀ value : String,
      ((∃ x, fromString PRECISION value = .ok x) ↔ Specified PRECISION value) ↔
        ∀ l : Literal, l.text = value.toList → Judged PRECISION l) ∧
    ∀ entries : List (String × Json),
      ((∃ x, deserialize lex PRECISION (.object entries) = .ok x) ↔
        ∃ n, HasPercentage entries n ∧ IsPercentage PRECISION n.literal.value) ↔
        ∀ n, HasPercentage entries n → NumberJudged lex PRECISION n :=
  ⟨fromString_specified_iff PRECISION, deserialize_specified_iff lex PRECISION⟩

end

def tiny : NumberText where
  literal := ryu ⟨false, 1, -7⟩
  unsigned := by decide
  whole := by decide
  leading := by decide
  fraction := by decide

def tinyLexical : Lexical where
  readFloat _ := some 0x3e7ad7f29abcaf48
  shortest _ := ⟨false, 1, -7⟩
  escape s := s

/-- Seven decimals are accepted where there should be two, for none of them stands after a dot:
in a string, and in a JSON object. -/
theorem exponent_accepted :
    ((∃ x, fromString 2 "1e-7" = .ok x) ∧ ¬ Specified 2 "1e-7") ∧
    (∃ x, deserialize tinyLexical 2 (.object [("percentage", .number tiny)]) = .ok x) ∧
    ¬ IsPercentage 2 tiny.literal.value := by
  have text : tiny.literal.text = "1e-7".toList := by decide
  have value : tiny.literal.value = 1 / 10000000 := by
    show (ryu ⟨false, 1, -7⟩).value = _
    rw [ryu_value]
    norm_num [Decimal.Number.value, Decimal.Number.magnitude]
  have accepted : Accepted 2 tiny.literal := by
    constructor
    · rw [value]
      apply roundsIntoRange_of_inside <;> norm_num
    · decide
  have notPercentage : ¬ IsPercentage 2 tiny.literal.value := by
    rintro ⟨_, _, places⟩
    exact absurd ((places_iff tiny.literal 2).mp places) (by decide)
  refine ⟨⟨(fromString_literal 2 text).mpr accepted, ?_⟩, ?_, notPercentage⟩
  · rw [specified_literal 2 text]
    exact notPercentage
  · rw [deserialize_iff]
    exact ⟨tiny, rfl, .float 0x3e7ad7f29abcaf48, by decide, accepted⟩

end Mercado.Percentage
