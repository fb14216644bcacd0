import Mathlib.Data.List.TakeWhile

/-! A list that is cut at the first of its separators, or at all of them. -/
namespace Text

variable {α : Type} [DecidableEq α]

def splitOnce (sep : α) : List α → Option (List α × List α)
  | [] => none
  | x :: l => if x = sep then some ([], l) else (splitOnce sep l).map fun (a, b) => (x :: a, b)

variable {sep : α}

theorem splitOnce_append {a : List α} (absent : sep ∉ a) (b : List α) :
    splitOnce sep (a ++ sep :: b) = some (a, b) := by
  induction a with
  | nil => exact if_pos rfl
  | cons x a ih =>
    have other : x ≠ sep := fun same => absent (same ▸ List.mem_cons_self)
    have rest := ih fun mem => absent (List.mem_cons_of_mem x mem)
    rw [List.cons_append, splitOnce, if_neg other, rest, Option.map_some]

theorem splitOnce_some {l a b : List α} :
    splitOnce sep l = some (a, b) ↔ l = a ++ sep :: b ∧ sep ∉ a := by
  constructor
  · intro split
    induction l generalizing a with
    | nil => cases split
    | cons x l ih =>
      rw [splitOnce] at split
      split at split
      · rename_i same
        cases split
        exact ⟨congrArg (· :: _) same, List.not_mem_nil⟩
      · rename_i other
        obtain ⟨⟨a', b'⟩, later, whole⟩ := Option.map_eq_some_iff.mp split
        cases whole
        obtain ⟨rfl, absent⟩ := ih later
        refine ⟨rfl, fun mem => ?_⟩
        rcases List.mem_cons.mp mem with same | mem
        · exact other same.symm
        · exact absent mem
  · rintro ⟨rfl, absent⟩
    exact splitOnce_append absent b

/- All separators: `List.splitOn`. -/

theorem not_mem_piece {l piece : List α} (mem : piece ∈ l.splitOn sep) : sep ∉ piece := by
  induction l generalizing piece with
  | nil =>
    rw [List.splitOn_nil, List.mem_singleton] at mem
    exact mem ▸ List.not_mem_nil
  | cons x l ih =>
    rw [List.splitOn_cons_eq_if_modifyHead] at mem
    split at mem
    · rcases List.mem_cons.mp mem with rfl | mem
      · exact List.not_mem_nil
      · exact ih mem
    · rename_i other
      have differ : sep ≠ x := fun same => other (beq_iff_eq.mpr same.symm)
      cases pieces : l.splitOn sep with
      | nil => exact absurd pieces (List.splitOn_ne_nil sep l)
      | cons first rest =>
        rw [pieces] at mem ih
        rcases List.mem_cons.mp mem with rfl | mem
        · exact List.not_mem_cons_of_ne_of_not_mem differ (ih List.mem_cons_self)
        · exact ih (List.mem_cons_of_mem first mem)

theorem splitOn_iff {l : List α} {pieces : List (List α)} (some : pieces ≠ []) :
    l.splitOn sep = pieces ↔ l = [sep].intercalate pieces ∧ ∀ piece ∈ pieces, sep ∉ piece := by
  constructor
  · rintro rfl
    exact ⟨(List.intercalate_splitOn sep).symm, fun _ => not_mem_piece⟩
  · rintro ⟨rfl, absent⟩
    exact List.splitOn_intercalate sep absent some

theorem length_splitOn (l : List α) : (l.splitOn sep).length = l.count sep + 1 := by
  induction l with
  | nil => rfl
  | cons x l ih =>
    rw [List.splitOn_cons_eq_if_modifyHead, List.count_cons]
    split
    · rw [List.length_cons, ih]
    · rw [List.length_modifyHead, ih, Nat.add_zero]

theorem splitOn_inj {l l' : List α} : l.splitOn sep = l'.splitOn sep ↔ l = l' := by
  constructor
  · intro same
    have whole := @List.intercalate_splitOn _ l _ _ sep
    rw [same, List.intercalate_splitOn] at whole
    exact whole.symm
  · exact congrArg _

end Text
