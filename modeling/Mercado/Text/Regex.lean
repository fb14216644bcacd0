import Mathlib.Computability.RegularExpressions

/-! Regular expressions as they are written: classes of characters, optional parts, and
repetitions with bounds. -/
namespace Text.Regex
open RegularExpression

variable {α : Type}

def range (a b : Char) : List Char :=
  (List.range' a.toNat (b.toNat + 1 - a.toNat)).map Char.ofNat

def oneOf : List α → RegularExpression α
  | [] => 0
  | c :: cs => .char c + oneOf cs

def optional (r : RegularExpression α) : RegularExpression α := 1 + r

def repeated (r : RegularExpression α) : RegularExpression α := r * r.star

def upTo : Nat → RegularExpression α → RegularExpression α
  | 0, _ => 1
  | n + 1, r => 1 + r * upTo n r

theorem mem_range {a b c : Char} (low : b.toNat < 0xd800) :
    c ∈ range a b ↔ a.toNat ≤ c.toNat ∧ c.toNat ≤ b.toNat := by
  rw [range, List.mem_map]
  constructor
  · rintro ⟨n, mem, rfl⟩
    rw [List.mem_range'_1] at mem
    have valid : n.isValidChar := .inl (by omega)
    have number : (Char.ofNat n).toNat = n := by
      rw [Char.ofNat, dif_pos valid]
      rfl
    rw [number]
    omega
  · rintro ⟨above, below⟩
    refine ⟨c.toNat, ?_, Char.ofNat_toNat c⟩
    rw [List.mem_range'_1]
    omega

theorem mem_oneOf {cs x : List α} : x ∈ (oneOf cs).matches' ↔ ∃ c ∈ cs, x = [c] := by
  induction cs with
  | nil => exact iff_of_false (Language.notMem_zero x) fun ⟨c, mem, _⟩ => by cases mem
  | cons c cs ih =>
    have first : x ∈ (.char c : RegularExpression α).matches' ↔ x = [c] := Iff.rfl
    rw [oneOf, matches'_add, Language.mem_add, first, ih]
    simp

theorem mem_optional {r : RegularExpression α} {x : List α} :
    x ∈ (optional r).matches' ↔ x = [] ∨ x ∈ r.matches' := by
  rw [optional, matches'_add, Language.mem_add, matches'_epsilon, Language.mem_one]

theorem mem_repeated {r : RegularExpression α} {x : List α} : x ∈ (repeated r).matches' ↔
    ∃ words, words ≠ [] ∧ x = words.flatten ∧ ∀ word ∈ words, word ∈ r.matches' := by
  rw [repeated, matches'_mul, matches'_star, Language.mem_mul]
  constructor
  · rintro ⟨word, first, rest, later, rfl⟩
    obtain ⟨words, rfl, all⟩ := Language.mem_kstar.mp later
    exact ⟨word :: words, List.cons_ne_nil word words, rfl, List.forall_mem_cons.mpr ⟨first, all⟩⟩
  · rintro ⟨words, some, rfl, all⟩
    cases words with
    | nil => exact absurd rfl some
    | cons word words =>
      obtain ⟨first, later⟩ := List.forall_mem_cons.mp all
      exact ⟨word, first, words.flatten, Language.join_mem_kstar later, rfl⟩

/- Repetitions of a class: every character is one of the class. -/

theorem mem_upTo_oneOf {n : Nat} {cs x : List α} :
    x ∈ (upTo n (oneOf cs)).matches' ↔ x.length ≤ n ∧ ∀ c ∈ x, c ∈ cs := by
  induction n generalizing x with
  | zero =>
    rw [upTo, matches'_epsilon, Language.mem_one, Nat.le_zero, List.length_eq_zero_iff]
    constructor
    · rintro rfl
      exact ⟨rfl, fun c mem => by cases mem⟩
    · exact And.left
  | succ n ih =>
    rw [upTo, matches'_add, Language.mem_add, matches'_epsilon, Language.mem_one, matches'_mul,
      Language.mem_mul]
    constructor
    · rintro (rfl | ⟨first, head, rest, later, rfl⟩)
      · exact ⟨Nat.zero_le _, fun c mem => by cases mem⟩
      · obtain ⟨c, mem, rfl⟩ := mem_oneOf.mp head
        obtain ⟨short, all⟩ := ih.mp later
        exact ⟨Nat.succ_le_succ short, List.forall_mem_cons.mpr ⟨mem, all⟩⟩
    · rintro ⟨short, all⟩
      cases x with
      | nil => exact .inl rfl
      | cons c x =>
        obtain ⟨mem, all⟩ := List.forall_mem_cons.mp all
        exact .inr ⟨[c], mem_oneOf.mpr ⟨c, mem, rfl⟩, x,
          ih.mpr ⟨Nat.le_of_succ_le_succ short, all⟩, rfl⟩

theorem mem_repeated_oneOf {cs x : List α} :
    x ∈ (repeated (oneOf cs)).matches' ↔ x ≠ [] ∧ ∀ c ∈ x, c ∈ cs := by
  rw [mem_repeated]
  constructor
  · rintro ⟨words, some, rfl, all⟩
    have single : ∀ word ∈ words, ∃ c ∈ cs, word = [c] :=
      fun word mem => mem_oneOf.mp (all word mem)
    constructor
    · obtain ⟨word, mem⟩ := List.exists_mem_of_ne_nil words some
      obtain ⟨c, -, rfl⟩ := single word mem
      exact List.ne_nil_of_mem (List.mem_flatten.mpr ⟨[c], mem, List.mem_singleton_self c⟩)
    · intro c mem
      obtain ⟨word, inWords, inWord⟩ := List.mem_flatten.mp mem
      obtain ⟨d, inClass, rfl⟩ := single word inWords
      rw [List.mem_singleton] at inWord
      exact inWord ▸ inClass
  · rintro ⟨some, all⟩
    refine ⟨x.map fun c => [c], ?_, ?_, ?_⟩
    · exact fun none => some (List.map_eq_nil_iff.mp none)
    · exact (List.flatMap_singleton' x).symm
    · intro word mem
      obtain ⟨c, inside, rfl⟩ := List.mem_map.mp mem
      exact mem_oneOf.mpr ⟨c, all c inside, rfl⟩

end Text.Regex
