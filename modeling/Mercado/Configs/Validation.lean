import Mercado.Text.Trim

/-! What the validators of the settings share. -/
namespace Mercado.Configs

inductive ApplicationError where
  | invalidConfigurationValueError (message : String)
  deriving DecidableEq, Repr

def when {ε : Type} (predicate : Bool) (f : Except ε Unit) : Except ε Unit :=
  if predicate then f else .ok ()

theorem when_ok {ε : Type} {predicate : Bool} {e : ε} :
    when predicate (.error e) = .ok () ↔ predicate = false := by
  cases predicate with
  | false => exact iff_of_true rfl rfl
  | true => exact iff_of_false (fun ok => by cases ok) (by simp)

theorem when_bind_ok {ε α : Type} {predicate : Bool} {e : ε} {f : Unit → Except ε α} {a : α} :
    (when predicate (.error e) >>= f) = .ok a ↔ predicate = false ∧ f () = .ok a := by
  cases predicate with
  | false => exact (and_iff_right rfl).symm
  | true => exact iff_of_false (fun ok => by cases ok) (by simp)

/-- The characters with the property `White_Space`. -/
def isWhitespace (c : Char) : Bool :=
  let n := c.toNat
  (0x9 ≤ n && n ≤ 0xd) || n = 0x20 || n = 0x85 || n = 0xa0 || n = 0x1680 ||
    (0x2000 ≤ n && n ≤ 0x200a) || n = 0x2028 || n = 0x2029 || n = 0x202f || n = 0x205f ||
    n = 0x3000

def trim (s : String) : String := .ofList (Text.trimBy isWhitespace s.toList)

/- `ConfigExt`. The default of a string is the empty one, that of a `u32` is zero. -/

def isDefaultOrEmpty (s : String) : Bool := s = "" || (trim s).isEmpty

def isDefaultOrEmptyU32 (n : UInt32) : Bool := n = 0 || false

theorem isDefaultOrEmptyU32_iff {n : UInt32} : isDefaultOrEmptyU32 n = false ↔ n ≠ 0 := by
  simp [isDefaultOrEmptyU32]

end Mercado.Configs
