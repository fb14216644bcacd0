import Mathlib.Algebra.Order.Field.Rat
import Mathlib.Data.List.DropRight

/-! Floating-point literals: their grammar, a reader for it, and the number a literal denotes.
The reader accepts the texts of the grammar and no others. -/
namespace Decimal

def AllDigits (cs : List Char) : Prop := ∀ c ∈ cs, c.isDigit = true

instance (cs : List Char) : Decidable (AllDigits cs) :=
  inferInstanceAs (Decidable (∀ c ∈ cs, c.isDigit = true))

theorem AllDigits.nil : AllDigits [] := fun _ mem => absurd mem List.not_mem_nil

theorem AllDigits.take {cs : List Char} (digits : AllDigits cs) (k : Nat) :
    AllDigits (cs.take k) := fun c mem => digits c (List.mem_of_mem_take mem)

theorem AllDigits.drop {cs : List Char} (digits : AllDigits cs) (k : Nat) :
    AllDigits (cs.drop k) := fun c mem => digits c (List.mem_of_mem_drop mem)

theorem allDigits_zeros (k : Nat) : AllDigits (List.replicate k '0') := by
  intro c mem
  rw [List.eq_of_mem_replicate mem]
  decide

theorem AllDigits.append {a b : List Char} (left : AllDigits a) (right : AllDigits b) :
    AllDigits (a ++ b) := by
  intro c mem
  cases List.mem_append.mp mem with
  | inl front => exact left c front
  | inr back => exact right c back

inductive Sign where
  | plus
  | minus
  deriving DecidableEq, Repr

def Sign.char : Sign → Char
  | plus => '+'
  | minus => '-'

def signText : Option Sign → List Char
  | none => []
  | some s => [s.char]

@[ext]
structure Exponent where
  marker : Char
  sign : Option Sign
  digits : List Char
  marker_e : marker = 'e' ∨ marker = 'E'
  nonempty : digits ≠ []
  all_digits : AllDigits digits

def exponentText : Option Exponent → List Char
  | none => []
  | some e => e.marker :: (signText e.sign ++ e.digits)

def fractionText : Option (List Char) → List Char
  | none => []
  | some f => '.' :: f

/-- Digits before the dot, after it or on both sides; the dot and the exponent are optional. -/
@[ext]
structure Literal where
  sign : Option Sign
  whole : List Char
  fraction : Option (List Char)
  exponent : Option Exponent
  whole_digits : AllDigits whole
  fraction_digits : AllDigits (fraction.getD [])
  nonempty : whole ++ fraction.getD [] ≠ []

namespace Literal

variable (l : Literal)

def digits : List Char := l.whole ++ l.fraction.getD []

def body : List Char := l.whole ++ (fractionText l.fraction ++ exponentText l.exponent)

def text : List Char := signText l.sign ++ l.body

end Literal

/- Reading. -/

def readSign : List Char → Option Sign × List Char
  | '+' :: cs => (some .plus, cs)
  | '-' :: cs => (some .minus, cs)
  | cs => (none, cs)

def readFraction : List Char → Option (List Char) × List Char
  | '.' :: cs => (some (cs.takeWhile Char.isDigit), cs.dropWhile Char.isDigit)
  | cs => (none, cs)

def readExponent : List Char → Option (Option Exponent)
  | [] => some none
  | c :: cs =>
    if valid : (c = 'e' ∨ c = 'E') ∧ (readSign cs).2 ≠ [] ∧ AllDigits (readSign cs).2 then
      some (some ⟨c, (readSign cs).1, (readSign cs).2, valid.1, valid.2.1, valid.2.2⟩)
    else none

theorem allDigits_takeWhile (cs : List Char) : AllDigits (cs.takeWhile Char.isDigit) :=
  fun _ mem => List.mem_takeWhile_imp mem

theorem readFraction_digits (cs : List Char) : AllDigits ((readFraction cs).1.getD []) := by
  unfold readFraction
  split
  · exact allDigits_takeWhile _
  · exact AllDigits.nil

def readBody (sign : Option Sign) (cs : List Char) : Option Literal :=
  let whole := cs.takeWhile Char.isDigit
  let after := readFraction (cs.dropWhile Char.isDigit)
  if nonempty : whole ++ after.1.getD [] ≠ [] then
    (readExponent after.2).map fun exponent =>
      ⟨sign, whole, after.1, exponent, allDigits_takeWhile cs, readFraction_digits _, nonempty⟩
  else none

def readLiteral (cs : List Char) : Option Literal := readBody (readSign cs).1 (readSign cs).2

theorem readSign_sound (cs : List Char) : signText (readSign cs).1 ++ (readSign cs).2 = cs := by
  unfold readSign
  split <;> rfl

theorem readFraction_sound (cs : List Char) :
    fractionText (readFraction cs).1 ++ (readFraction cs).2 = cs := by
  unfold readFraction
  split
  · rename_i cs
    show '.' :: (cs.takeWhile Char.isDigit ++ cs.dropWhile Char.isDigit) = '.' :: cs
    rw [List.takeWhile_append_dropWhile]
  · rfl

theorem readExponent_sound {cs : List Char} {e : Option Exponent}
    (read : readExponent cs = some e) : exponentText e = cs := by
  cases cs with
  | nil =>
    cases read
    rfl
  | cons c cs =>
    rw [readExponent] at read
    split at read
    · cases read
      exact congrArg (List.cons c) (readSign_sound cs)
    · cases read

theorem readLiteral_sound {cs : List Char} {l : Literal} (read : readLiteral cs = some l) :
    l.text = cs := by
  unfold readLiteral readBody at read
  dsimp only at read
  split at read
  · obtain ⟨e, exponent, rfl⟩ := Option.map_eq_some_iff.mp read
    rw [Literal.text, Literal.body, readExponent_sound exponent, readFraction_sound,
      List.takeWhile_append_dropWhile, readSign_sound]
  · cases read

def Stops (cs : List Char) : Prop := ∀ c ∈ cs.head?, c.isDigit = false

theorem takeWhile_stops {a b : List Char} (digits : AllDigits a) (stops : Stops b) :
    (a ++ b).takeWhile Char.isDigit = a ∧ (a ++ b).dropWhile Char.isDigit = b := by
  rw [List.takeWhile_append_of_pos digits, List.dropWhile_append_of_pos digits]
  cases b with
  | nil => simp
  | cons c b =>
    have first : c.isDigit = false := stops c rfl
    simp [first]

theorem exponentText_stops (e : Option Exponent) : Stops (exponentText e) := by
  intro c mem
  cases e with
  | none => cases mem
  | some e =>
    cases mem
    cases e.marker_e with
    | inl small => rw [small]; decide
    | inr large => rw [large]; decide

theorem fractionText_stops (f : Option (List Char)) (e : Option Exponent) :
    Stops (fractionText f ++ exponentText e) := by
  cases f with
  | none => exact exponentText_stops e
  | some f =>
    intro c mem
    cases mem
    decide

theorem readSign_text {s : Option Sign} {cs : List Char}
    (unsigned : ∀ c ∈ cs.head?, c ≠ '+' ∧ c ≠ '-') : readSign (signText s ++ cs) = (s, cs) := by
  cases s with
  | none =>
    show readSign cs = (none, cs)
    unfold readSign
    split
    · exact absurd rfl (unsigned _ rfl).1
    · exact absurd rfl (unsigned _ rfl).2
    · rfl
  | some s => cases s <;> rfl

theorem digit_unsigned {c : Char} (digit : c.isDigit = true) : c ≠ '+' ∧ c ≠ '-' := by
  constructor <;> rintro rfl <;> contradiction

theorem readFraction_text {f : Option (List Char)} (digits : AllDigits (f.getD []))
    (e : Option Exponent) :
    readFraction (fractionText f ++ exponentText e) = (f, exponentText e) := by
  cases f with
  | none =>
    cases e with
    | none => rfl
    | some e =>
      show readFraction (e.marker :: (signText e.sign ++ e.digits)) = _
      unfold readFraction
      split
      · rename_i same
        have marker := (List.cons.inj same).1
        cases e.marker_e with
        | inl small => exact absurd (small.symm.trans marker) (by decide)
        | inr large => exact absurd (large.symm.trans marker) (by decide)
      · rfl
  | some f =>
    obtain ⟨taken, dropped⟩ := takeWhile_stops digits (exponentText_stops e)
    show (some ((f ++ exponentText e).takeWhile Char.isDigit),
      (f ++ exponentText e).dropWhile Char.isDigit) = _
    rw [Option.getD_some] at taken dropped
    rw [taken, dropped]

theorem readExponent_text (e : Option Exponent) : readExponent (exponentText e) = some e := by
  cases e with
  | none => rfl
  | some e =>
    have unsigned : ∀ c ∈ e.digits.head?, c ≠ '+' ∧ c ≠ '-' :=
      fun c mem => digit_unsigned (e.all_digits c (List.mem_of_mem_head? mem))
    have sign := readSign_text (s := e.sign) unsigned
    have valid : (e.marker = 'e' ∨ e.marker = 'E') ∧
        (readSign (signText e.sign ++ e.digits)).2 ≠ [] ∧
        AllDigits (readSign (signText e.sign ++ e.digits)).2 := by
      rw [sign]
      exact ⟨e.marker_e, e.nonempty, e.all_digits⟩
    rw [exponentText, readExponent, dif_pos valid]
    simp only [sign]

theorem Literal.body_head (l : Literal) :
    ∃ c rest, l.body = c :: rest ∧ (c.isDigit = true ∨ c = '.') := by
  unfold Literal.body
  cases whole : l.whole with
  | cons c rest =>
    refine ⟨c, _, rfl, .inl (l.whole_digits c ?_)⟩
    rw [whole]
    exact List.mem_cons_self
  | nil =>
    cases fraction : l.fraction with
    | some f => exact ⟨'.', _, rfl, .inr rfl⟩
    | none =>
      have nonempty := l.nonempty
      rw [whole, fraction] at nonempty
      exact absurd rfl nonempty

theorem Literal.body_unsigned (l : Literal) : ∀ c ∈ l.body.head?, c ≠ '+' ∧ c ≠ '-' := by
  obtain ⟨c, rest, shape, first⟩ := l.body_head
  rw [shape]
  intro d mem
  cases mem
  cases first with
  | inl digit => exact digit_unsigned digit
  | inr dot => rw [dot]; decide

theorem Literal.text_head (l : Literal) :
    ∃ c rest, l.text = c :: rest ∧ (c.isDigit = true ∨ c = '.' ∨ c = '+' ∨ c = '-') := by
  unfold Literal.text
  cases l.sign with
  | none =>
    obtain ⟨c, rest, shape, first⟩ := l.body_head
    exact ⟨c, rest, shape, first.imp_right .inl⟩
  | some s =>
    cases s with
    | plus => exact ⟨'+', l.body, rfl, .inr (.inr (.inl rfl))⟩
    | minus => exact ⟨'-', l.body, rfl, .inr (.inr (.inr rfl))⟩

theorem readLiteral_text (l : Literal) : readLiteral l.text = some l := by
  have sign := readSign_text (s := l.sign) l.body_unsigned
  obtain ⟨taken, dropped⟩ :=
    takeWhile_stops l.whole_digits (fractionText_stops l.fraction l.exponent)
  have fraction := readFraction_text l.fraction_digits l.exponent
  unfold readLiteral readBody
  rw [Literal.text, sign]
  simp only [Literal.body, taken, dropped, fraction, readExponent_text]
  rw [dif_pos l.nonempty]
  rfl

theorem readLiteral_iff {cs : List Char} {l : Literal} :
    readLiteral cs = some l ↔ l.text = cs := by
  constructor
  · exact readLiteral_sound
  · rintro rfl
    exact readLiteral_text l

theorem Literal.text_injective {l l' : Literal} (same : l.text = l'.text) : l = l' := by
  have read := readLiteral_iff.mpr same
  rw [readLiteral_text] at read
  exact (Option.some.inj read).symm

/- Rust's floats: a literal, or one of three words, whatever the case of their letters. -/

inductive Parsed where
  | number (l : Literal)
  | infinite (negative : Bool)
  | nan

def infinityWords : List (List Char) :=
  [['i', 'n', 'f'], ['i', 'n', 'f', 'i', 'n', 'i', 't', 'y']]

def nanWord : List Char := ['n', 'a', 'n']

def readFloat (cs : List Char) : Option Parsed :=
  let sign := (readSign cs).1
  let word := (readSign cs).2.map Char.toLower
  if word ∈ infinityWords then some (.infinite (sign = some .minus))
  else if word = nanWord then some .nan
  else (readLiteral cs).map .number

theorem toLower_of_small {c : Char} (small : c.toNat < 'A'.toNat) : c.toLower = c := by
  refine dif_neg ?_
  intro upper
  have letter : 'A'.toNat ≤ c.toNat := UInt32.le_iff_toNat_le.mp upper.1
  omega

theorem body_not_word (l : Literal) :
    l.body.map Char.toLower ∉ infinityWords ∧ l.body.map Char.toLower ≠ nanWord := by
  obtain ⟨c, rest, shape, first⟩ := l.body_head
  have small : c.toNat < 'A'.toNat := by
    cases first with
    | inl digit => exact Nat.lt_of_le_of_lt (Char.isDigit_iff_toNat.mp digit).2 (by decide)
    | inr dot => rw [dot]; decide
  have letter : ∀ d word, 'A'.toNat ≤ d.toNat → l.body.map Char.toLower ≠ d :: word := by
    intro d word large same
    rw [shape, List.map_cons, toLower_of_small small] at same
    rw [← (List.cons.inj same).1] at large
    exact absurd large (Nat.not_le_of_lt small)
  constructor
  · intro mem
    simp only [infinityWords, List.mem_cons, List.not_mem_nil, or_false] at mem
    cases mem with
    | inl short => exact letter 'i' _ (by decide) short
    | inr long => exact letter 'i' _ (by decide) long
  · exact letter 'n' _ (by decide)

theorem readFloat_literal {cs : List Char} {l : Literal} :
    readFloat cs = some (.number l) ↔ l.text = cs := by
  constructor
  · intro read
    unfold readFloat at read
    dsimp only at read
    split at read
    · cases read
    · split at read
      · cases read
      · obtain ⟨literal, found, same⟩ := Option.map_eq_some_iff.mp read
        cases same
        exact readLiteral_iff.mp found
  · rintro rfl
    have sign := readSign_text (s := l.sign) l.body_unsigned
    obtain ⟨notInfinity, notNan⟩ := body_not_word l
    have literal := readLiteral_text l
    unfold readFloat
    rw [literal, Literal.text, sign]
    dsimp only
    rw [if_neg notInfinity, if_neg notNan, Option.map_some]

inductive ParseFloatError where
  | empty
  | invalid
  deriving DecidableEq, Repr

def parseFloat (text : String) : Except ParseFloatError Parsed :=
  match text.toList with
  | [] => .error .empty
  | cs@(_ :: _) => (readFloat cs).elim (.error .invalid) .ok

theorem parseFloat_literal {text : String} {l : Literal} :
    parseFloat text = .ok (.number l) ↔ l.text = text.toList := by
  unfold parseFloat
  split
  · rename_i empty
    rw [empty]
    constructor
    · intro parsed
      cases parsed
    · intro shape
      obtain ⟨c, rest, body, _⟩ := l.body_head
      rw [Literal.text, body] at shape
      exact absurd (List.append_eq_nil_iff.mp shape).2 (List.cons_ne_nil c rest)
  · rename_i c rest shape
    rw [shape, ← readFloat_literal]
    cases readFloat (c :: rest) with
    | none =>
      constructor <;> intro parsed <;> cases parsed
    | some float =>
      constructor <;> intro parsed <;> cases parsed <;> rfl

end Decimal
