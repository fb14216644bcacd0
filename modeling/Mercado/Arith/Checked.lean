import Mathlib.Algebra.Group.Int.Defs
import Mathlib.Algebra.Group.Nat.Defs

/-! Integers of a fixed width, as a program computes with them. Where a result does not fit, a
build with overflow checks panics and one without them goes on with the remainder; a division
by zero panics in both. -/
namespace Checked

inductive Build where
  | debug | release
  deriving DecidableEq, Repr

inductive Panic where
  | overflow | divisionByZero
  deriving DecidableEq, Repr

/-- The result of an operation, `remainder` if it may not fit. -/
def Build.fit {α : Type} (build : Build) (fits : Prop) [Decidable fits] (remainder : α) :
    Except Panic α :=
  if ¬ fits ∧ build = .debug then .error .overflow else .ok remainder

theorem fit_of_fits {α : Type} {build : Build} {fits : Prop} [Decidable fits] {a : α}
    (h : fits) : build.fit fits a = .ok a := if_neg fun overflows => overflows.1 h

theorem debug_fit {α : Type} {fits : Prop} [Decidable fits] {a : α} (h : ¬ fits) :
    Build.debug.fit fits a = .error .overflow := if_pos ⟨h, rfl⟩

namespace Build

variable (build : Build)

def addI32 (x y : Int32) : Except Panic Int32 :=
  build.fit (-2 ^ 31 ≤ x.toInt + y.toInt ∧ x.toInt + y.toInt < 2 ^ 31) (x + y)

def addU8 (x y : UInt8) : Except Panic UInt8 := build.fit (x.toNat + y.toNat < 2 ^ 8) (x + y)

def subU8 (x y : UInt8) : Except Panic UInt8 := build.fit (y.toNat ≤ x.toNat) (x - y)

def mulU32 (x y : UInt32) : Except Panic UInt32 :=
  build.fit (x.toNat * y.toNat < 2 ^ 32) (x * y)

def subUsize (x y : Nat) : Except Panic Nat :=
  build.fit (y ≤ x) (if y ≤ x then x - y else 2 ^ 64 + x - y)

end Build

def divU32 (x y : UInt32) : Except Panic UInt32 :=
  if y = 0 then .error .divisionByZero else .ok (x / y)

def remU32 (x y : UInt32) : Except Panic UInt32 :=
  if y = 0 then .error .divisionByZero else .ok (x % y)

variable {build : Build}

theorem addI32_fits {x y : Int32} (low : -2 ^ 31 ≤ x.toInt + y.toInt)
    (high : x.toInt + y.toInt < 2 ^ 31) :
    build.addI32 x y = .ok (x + y) ∧ (x + y).toInt = x.toInt + y.toInt := by
  refine ⟨fit_of_fits ⟨low, high⟩, ?_⟩
  rw [Int32.toInt_add, Int.bmod_eq_of_le] <;> omega

theorem addI32_overflows {x y : Int32} (high : 2 ^ 31 ≤ x.toInt + y.toInt) :
    Build.debug.addI32 x y = .error .overflow :=
  debug_fit fun fits => absurd fits.2 (Int.not_lt.mpr high)

theorem mulU32_fits {x y : UInt32} (fits : x.toNat * y.toNat < 2 ^ 32) :
    build.mulU32 x y = .ok (x * y) ∧ (x * y).toNat = x.toNat * y.toNat := by
  refine ⟨fit_of_fits fits, ?_⟩
  rw [UInt32.toNat_mul, Nat.mod_eq_of_lt fits]

theorem mulU32_overflows {x y : UInt32} (large : 2 ^ 32 ≤ x.toNat * y.toNat) :
    Build.debug.mulU32 x y = .error .overflow := debug_fit (Nat.not_lt.mpr large)

theorem subUsize_fits {x y : Nat} (fits : y ≤ x) : build.subUsize x y = .ok (x - y) := by
  rw [Build.subUsize, fit_of_fits fits, if_pos fits]

theorem divU32_ok {x y : UInt32} (positive : y ≠ 0) : divU32 x y = .ok (x / y) := if_neg positive

theorem remU32_ok_iff {x y : UInt32} : (∃ z, remU32 x y = .ok z) ↔ y ≠ 0 := by
  unfold remU32
  split
  · rename_i zero
    exact iff_of_false (fun ⟨_, h⟩ => by cases h) (absurd zero)
  · rename_i positive
    exact iff_of_true ⟨_, rfl⟩ positive

end Checked
