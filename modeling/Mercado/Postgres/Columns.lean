import Mathlib.Algebra.Group.Int.Defs
import Mathlib.Algebra.Ring.Int.Defs

/-! What the columns of a Postgres table take, and what they give back. Instants count the
nanoseconds from 1970-01-01. -/
namespace Postgres

def noNul (s : String) : Bool := !s.toList.contains '\x00'

def varchar (n : Nat) (s : String) : Bool := s.length ≤ n && noNul s

/-- 2000-01-01, from which Postgres counts. -/
def epoch : Int := 946684800 * 1000000000

def earliest : Int := -210866803200 * 1000000000

/-- An instant is sent as the whole microseconds from the epoch to it. -/
def stored (t : Int) : Int := epoch + (t - epoch).tdiv 1000 * 1000

/-- The last instant of a `TIMESTAMP` is far after the year 9999. -/
def timestamp (t : Int) : Bool := earliest ≤ stored t

def Whole (t : Int) : Prop := (1000 : Int) ∣ t

instance (t : Int) : Decidable (Whole t) := inferInstanceAs (Decidable ((1000 : Int) ∣ t))

theorem truncate_iff {epoch t : Int} (whole : (1000 : Int) ∣ epoch) :
    epoch + (t - epoch).tdiv 1000 * 1000 = t ↔ (1000 : Int) ∣ t := by
  have rest := Int.tdiv_mul_add_tmod (t - epoch) 1000
  have divides : (t - epoch).tmod 1000 = 0 ↔ (1000 : Int) ∣ t - epoch :=
    Int.dvd_iff_tmod_eq_zero.symm
  constructor
  · intro same
    have distance := divides.mp (by omega)
    omega
  · intro multiple
    have none := divides.mpr (by omega)
    omega

theorem stored_iff (t : Int) : stored t = t ↔ Whole t := truncate_iff (by decide)

end Postgres
