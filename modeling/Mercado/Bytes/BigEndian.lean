import Mathlib.Algebra.Group.Nat.Defs
import Mathlib.Data.List.Induction

/-! Natural numbers as bytes of a fixed number, the highest first. -/
namespace Bytes

def ofBe (bytes : List UInt8) : Nat := bytes.foldl (fun n b => 256 * n + b.toNat) 0

def toBe : Nat → Nat → List UInt8
  | 0, _ => []
  | width + 1, n => toBe width (n / 256) ++ [.ofNat n]

theorem ofBe_concat (bytes : List UInt8) (b : UInt8) :
    ofBe (bytes ++ [b]) = 256 * ofBe bytes + b.toNat := by
  rw [ofBe, List.foldl_append]
  rfl

@[simp] theorem length_toBe (width n : Nat) : (toBe width n).length = width := by
  induction width generalizing n with
  | zero => rfl
  | succ width ih => rw [toBe, List.length_append, ih, List.length_singleton]

theorem ofBe_toBe (width n : Nat) : ofBe (toBe width n) = n % 256 ^ width := by
  induction width generalizing n with
  | zero => rw [Nat.pow_zero, Nat.mod_one]; rfl
  | succ width ih =>
    have last : (UInt8.ofNat n).toNat = n % 256 := UInt8.toNat_ofNat'
    rw [toBe, ofBe_concat, ih, last, Nat.pow_succ', Nat.mod_mul, Nat.add_comm]

theorem toBe_ofBe (bytes : List UInt8) : toBe bytes.length (ofBe bytes) = bytes := by
  induction bytes using List.reverseRecOn with
  | nil => rfl
  | append_singleton bytes b ih =>
    have small : b.toNat < 256 := b.toNat_lt
    have high : (256 * ofBe bytes + b.toNat) / 256 = ofBe bytes := by omega
    have low : UInt8.ofNat (256 * ofBe bytes + b.toNat) = b := by
      apply UInt8.toNat_inj.mp
      rw [UInt8.toNat_ofNat']
      omega
    rw [List.length_append, List.length_singleton, toBe, ofBe_concat, high, low, ih]

theorem drop_toBe (k width n : Nat) : (toBe (k + width) n).drop k = toBe width n := by
  induction width generalizing n with
  | zero => exact List.drop_eq_nil_iff.mpr (Nat.le_of_eq (length_toBe k n))
  | succ width ih =>
    have reach : k ≤ (toBe (k + width) (n / 256)).length := by
      rw [length_toBe]
      exact Nat.le_add_right k width
    rw [← Nat.add_assoc, toBe, List.drop_append_of_le_length reach, ih, toBe]

theorem ofBe_zeros (k : Nat) (bytes : List UInt8) :
    ofBe (List.replicate k 0 ++ bytes) = ofBe bytes := by
  induction k with
  | zero => rfl
  | succ k ih => exact ih

theorem ofBe_lt (bytes : List UInt8) : ofBe bytes < 256 ^ bytes.length := by
  have same := congrArg ofBe (toBe_ofBe bytes)
  rw [ofBe_toBe] at same
  rw [← same]
  exact Nat.mod_lt _ (Nat.pow_pos (by decide))

theorem toBe_inj {width m n : Nat} :
    toBe width m = toBe width n ↔ m % 256 ^ width = n % 256 ^ width := by
  constructor
  · intro same
    have values := congrArg ofBe same
    rwa [ofBe_toBe, ofBe_toBe] at values
  · intro same
    have again := fun n => toBe_ofBe (toBe width n)
    simp only [length_toBe, ofBe_toBe] at again
    rw [← again m, same, again n]

end Bytes
