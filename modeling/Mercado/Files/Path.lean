import Mathlib.Data.List.Basic
import Mathlib.Data.List.Induction
import Mercado.Text.Split

/-! Paths of a Unix file system: their components, what is pushed onto them, and what they are
once `.` and `..` are resolved by the text alone. -/
namespace Path

inductive Component where
  | rootDir
  | curDir
  | parentDir
  | normal (name : List Char)
  deriving DecidableEq, Repr

def isAbsolute (path : List Char) : Bool := path.head? = some '/'

def piece (p : List Char) : Option Component :=
  if p = [] ∨ p = ['.'] then none
  else if p = ['.', '.'] then some .parentDir
  else some (.normal p)

def body (path : List Char) : List Component := (path.splitOn '/').filterMap piece

/-- A dot counts where it is all that a relative path begins with. -/
def components (path : List Char) : List Component :=
  if isAbsolute path then .rootDir :: body path
  else if (path.splitOn '/').head? = some ['.'] then .curDir :: body path
  else body path

/-- An absolute path takes the place of what is there. -/
def push (buf path : List Char) : List Char :=
  if isAbsolute path then path
  else if buf = [] ∨ buf.getLast? = some '/' then buf ++ path
  else buf ++ '/' :: path

def parent (path : List Char) : Option (List Component) :=
  match (components path).getLast? with
  | none | some .rootDir => none
  | some _ => some (components path).dropLast

/-- A path without dots: so many levels up, and down along these names. -/
structure Resolved where
  absolute : Bool
  up : Nat
  names : List (List Char)
  deriving DecidableEq, Repr

namespace Resolved

def here : Resolved := ⟨false, 0, []⟩

def parent (r : Resolved) : Resolved :=
  if r.names ≠ [] then { r with names := r.names.dropLast }
  else if r.absolute then r
  else { r with up := r.up + 1 }

def enter (r : Resolved) : Component → Resolved
  | .rootDir => ⟨true, 0, []⟩
  | .curDir => r
  | .parentDir => r.parent
  | .normal name => { r with names := r.names ++ [name] }

def join (base rel : Resolved) : Resolved where
  absolute := base.absolute
  up := if base.absolute then base.up else base.up + (rel.up - base.names.length)
  names := base.names.take (base.names.length - rel.up) ++ rel.names

def Inside (base r : Resolved) : Prop :=
  r.absolute = base.absolute ∧ r.up = base.up ∧
    ∃ rest, rest ≠ [] ∧ r.names = base.names ++ rest

end Resolved

def resolve (path : List Char) : Resolved := (components path).foldl .enter .here

namespace Resolved

theorem parent_absolute (r : Resolved) : r.parent.absolute = r.absolute := by
  unfold parent
  split
  · rfl
  · split <;> rfl

@[simp] theorem join_here (base : Resolved) : join base here = base := by
  obtain ⟨absolute, up, names⟩ := base
  cases absolute <;> simp [join, here]

theorem join_parent {base rel : Resolved} (relative : rel.absolute = false) :
    join base rel.parent = (join base rel).parent := by
  obtain ⟨absolute, up, names⟩ := rel
  cases relative
  rcases List.eq_nil_or_concat' names with rfl | ⟨names, name, rfl⟩
  · have front : (⟨false, up, []⟩ : Resolved).parent = ⟨false, up + 1, []⟩ := rfl
    rw [front]
    rcases Nat.lt_or_ge up base.names.length with above | beyond
    · have some : base.names.take (base.names.length - up) ≠ [] := by
        intro none
        have length := congrArg List.length none
        rw [List.length_take, List.length_nil] at length
        omega
      have shorter : base.names.take (base.names.length - (up + 1)) =
          (base.names.take (base.names.length - up)).dropLast := by
        rw [List.dropLast_eq_take, List.length_take, List.take_take]
        apply congrArg (base.names.take ·)
        omega
      have still : up + 1 - base.names.length = up - base.names.length := by omega
      simp only [join, parent, List.append_nil, shorter, still]
      rw [if_pos some]
    · have none : base.names.length - up = 0 := by omega
      have none' : base.names.length - (up + 1) = 0 := by omega
      have further : up + 1 - base.names.length = up - base.names.length + 1 := by omega
      cases absolute : base.absolute with
      | true => simp [join, parent, none, none', absolute]
      | false => simp [join, parent, none, none', further, absolute, Nat.add_assoc]
  · have front : (⟨false, up, names ++ [name]⟩ : Resolved).parent = ⟨false, up, names⟩ := by
      simp [parent]
    rw [front]
    simp [join, parent, ← List.append_assoc]

theorem join_enter {base rel : Resolved} {c : Component} (relative : rel.absolute = false)
    (inner : c ≠ .rootDir) : join base (rel.enter c) = (join base rel).enter c := by
  cases c with
  | rootDir => exact absurd rfl inner
  | curDir => rfl
  | parentDir => exact join_parent relative
  | normal name => simp [enter, join]

end Resolved

open Resolved

theorem body_inner {path : List Char} : ∀ c ∈ body path, c ≠ .rootDir := by
  intro c mem
  obtain ⟨p, -, made⟩ := List.mem_filterMap.mp mem
  rintro rfl
  unfold piece at made
  split at made
  · cases made
  · split at made <;> cases made

theorem enter_all {cs : List Component} (inner : ∀ c ∈ cs, c ≠ .rootDir) (base : Resolved) :
    (cs.foldl enter here).absolute = false ∧
      cs.foldl enter base = join base (cs.foldl enter here) := by
  induction cs using List.reverseRecOn with
  | nil => exact ⟨rfl, (join_here base).symm⟩
  | append_singleton cs c ih =>
    obtain ⟨relative, same⟩ := ih fun d mem => inner d (List.mem_append_left _ mem)
    have here' : c ≠ .rootDir := inner c (by simp)
    rw [List.foldl_append, List.foldl_append, List.foldl_cons, List.foldl_cons, List.foldl_nil,
      List.foldl_nil, same, join_enter relative here']
    refine ⟨?_, rfl⟩
    cases c with
    | rootDir => exact absurd rfl here'
    | curDir => exact relative
    | parentDir => exact (parent_absolute _).trans relative
    | normal name => exact relative

theorem resolve_relative {path : List Char} (relative : isAbsolute path = false) :
    resolve path = (body path).foldl enter here := by
  unfold resolve components
  rw [if_neg (by rw [relative]; exact Bool.false_ne_true)]
  split <;> rfl

theorem body_append (front back : List Char) :
    body (front ++ '/' :: back) = body front ++ body back := by
  rw [body, List.splitOn_append_cons_self, List.filterMap_append]
  rfl

theorem components_append {front : List Char} (some : front ≠ []) (back : List Char) :
    components (front ++ '/' :: back) = components front ++ body back := by
  have root : isAbsolute (front ++ '/' :: back) = isAbsolute front := by
    cases front with
    | nil => exact absurd rfl some
    | cons c front => rfl
  have first : ((front ++ '/' :: back).splitOn '/').head? = (front.splitOn '/').head? := by
    have pieces : front.splitOn '/' ≠ [] := List.splitOn_ne_nil '/' front
    rw [List.splitOn_append_cons_self, List.head?_append_of_ne_nil _ pieces]
  unfold components
  rw [root, first, body_append]
  split
  · rfl
  · split <;> rfl

theorem components_root (back : List Char) :
    components ('/' :: back) = .rootDir :: body back := by
  have all : body ('/' :: back) = body back := body_append [] back
  exact congrArg (Component.rootDir :: ·) all

theorem resolve_append {front : List Char} (some : front ≠ []) (back : List Char) :
    resolve (front ++ '/' :: back) = (body back).foldl enter (resolve front) := by
  rw [resolve, components_append some, List.foldl_append]
  rfl

/-- Whatever the buffer ends in, a relative path leads on from where it leads. -/
theorem resolve_push {buf path : List Char} (relative : isAbsolute path = false) :
    resolve (push buf path) = join (resolve buf) (resolve path) := by
  rw [resolve_relative relative, ← (enter_all body_inner (resolve buf)).2]
  unfold push
  rw [if_neg (by rw [relative]; exact Bool.false_ne_true)]
  rcases List.eq_nil_or_concat' buf with rfl | ⟨front, last, rfl⟩
  · rw [if_pos (.inl rfl), List.nil_append, resolve_relative relative]
    rfl
  · have long : front ++ [last] ≠ [] := by simp
    by_cases slash : last = '/'
    · cases slash
      rw [if_pos (.inr (by simp)), List.append_assoc]
      cases front with
      | nil =>
        change (components ('/' :: path)).foldl enter here = _
        rw [components_root]
        rfl
      | cons c front =>
        change resolve (c :: front ++ '/' :: path) = _
        have long : c :: front ≠ [] := List.cons_ne_nil c front
        have same := resolve_append long []
        rw [resolve_append long]
        exact congrArg (fun r => (body path).foldl enter r) same.symm
    · have other : ¬ (front ++ [last] = [] ∨ (front ++ [last]).getLast? = some '/') := by
        simpa using slash
      rw [if_neg other, resolve_append long]

theorem inside_join {base rel : Resolved} : base.Inside (join base rel) ↔
    (rel.up ≤ base.names.length ∨ base.absolute = true) ∧ ∃ rest, rest ≠ [] ∧
      rel.names = base.names.drop (base.names.length - rel.up) ++ rest := by
  have level : (join base rel).up = base.up ↔
      rel.up ≤ base.names.length ∨ base.absolute = true := by
    cases absolute : base.absolute with
    | true => simp [join, absolute]
    | false =>
      simp only [join, absolute, Bool.false_eq_true, if_false, or_false]
      omega
  have names : ∀ rest, (join base rel).names = base.names ++ rest ↔
      rel.names = base.names.drop (base.names.length - rel.up) ++ rest := by
    intro rest
    have whole := List.take_append_drop (base.names.length - rel.up) base.names
    have split : base.names ++ rest = base.names.take (base.names.length - rel.up) ++
        (base.names.drop (base.names.length - rel.up) ++ rest) := by
      rw [← List.append_assoc, whole]
    rw [split]
    exact List.append_right_inj _
  unfold Inside
  rw [level]
  simp only [names]
  exact and_iff_right rfl

end Path
