import Mathlib.Algebra.Group.Nat.Defs
import Mathlib.Data.List.Basic

/-! Text by the length of its encoding in UTF-8. -/
namespace Text

def byteLen : List Char → Nat
  | [] => 0
  | c :: cs => c.utf8Size + byteLen cs

@[simp] theorem byteLen_append (a b : List Char) : byteLen (a ++ b) = byteLen a + byteLen b := by
  induction a with
  | nil => exact (Nat.zero_add _).symm
  | cons c a ih =>
    simp only [List.cons_append, byteLen, ih]
    omega

/-- The text from a byte on, if a character begins there or the text ends there. -/
def fromByte (n : Nat) : List Char → Option (List Char)
  | [] => if n = 0 then some [] else none
  | c :: cs =>
    if n = 0 then some (c :: cs)
    else if c.utf8Size ≤ n then fromByte (n - c.utf8Size) cs
    else none

theorem fromByte_zero (cs : List Char) : fromByte 0 cs = some cs := by
  cases cs <;> rfl

theorem fromByte_append (front rest : List Char) :
    fromByte (byteLen front) (front ++ rest) = some rest := by
  induction front with
  | nil => exact fromByte_zero rest
  | cons c front ih =>
    have positive := c.utf8Size_pos
    have later : c.utf8Size + byteLen front - c.utf8Size = byteLen front := by omega
    simp only [List.cons_append, fromByte, byteLen, later]
    rw [if_neg (by omega), if_pos (Nat.le_add_right ..), ih]

theorem fromByte_iff {n : Nat} {cs rest : List Char} :
    fromByte n cs = some rest ↔ ∃ front, cs = front ++ rest ∧ byteLen front = n := by
  constructor
  · intro found
    induction cs generalizing n with
    | nil =>
      unfold fromByte at found
      split at found
      · rename_i zero
        cases found
        exact ⟨[], rfl, zero.symm⟩
      · cases found
    | cons c cs ih =>
      unfold fromByte at found
      split at found
      · rename_i zero
        cases found
        exact ⟨[], rfl, zero.symm⟩
      · split at found
        · rename_i fits
          obtain ⟨front, rfl, length⟩ := ih found
          refine ⟨c :: front, rfl, ?_⟩
          simp only [byteLen, length]
          omega
        · cases found
  · rintro ⟨front, rfl, rfl⟩
    exact fromByte_append front rest

end Text
