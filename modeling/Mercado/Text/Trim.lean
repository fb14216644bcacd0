import Mathlib.Data.List.DropRight
import Mathlib.Data.List.Forall2

/-! Trimming a list at both ends, and what it does to the pieces of a list that is cut at a
separator. -/
namespace Text

variable {α : Type}

def trimBy (p : α → Bool) (l : List α) : List α := (l.dropWhile p).rdropWhile p

theorem trimBy_append_left {p : α → Bool} {a : List α} (blank : ∀ x ∈ a, p x) (l : List α) :
    trimBy p (a ++ l) = trimBy p l := by
  rw [trimBy, List.dropWhile_append_of_pos blank, ← trimBy]

theorem rdropWhile_append (p : α → Bool) (a b : List α) :
    (a ++ b).rdropWhile p =
      if b.rdropWhile p = [] then a.rdropWhile p else a ++ b.rdropWhile p := by
  by_cases empty : b.rdropWhile p = []
  · have front : b.reverse.dropWhile p = [] := List.reverse_eq_nil_iff.mp empty
    rw [if_pos empty, List.rdropWhile, List.reverse_append, List.dropWhile_append, front]
    rfl
  · have front : ¬ (b.reverse.dropWhile p).isEmpty := fun nil =>
      empty (List.reverse_eq_nil_iff.mpr (List.isEmpty_iff.mp nil))
    rw [if_neg empty, List.rdropWhile, List.reverse_append, List.dropWhile_append, if_neg front,
      List.reverse_append, List.reverse_reverse, ← List.rdropWhile]

theorem rdropWhile_append_blank {p : α → Bool} {b : List α} (blank : ∀ x ∈ b, p x) (l : List α) :
    (l ++ b).rdropWhile p = l.rdropWhile p := by
  rw [rdropWhile_append, if_pos (List.rdropWhile_eq_nil_iff.mpr blank)]

theorem trimBy_eq_nil_iff {p : α → Bool} {l : List α} : trimBy p l = [] ↔ ∀ x ∈ l, p x := by
  rw [trimBy, List.rdropWhile_eq_nil_iff]
  constructor
  · intro blank x mem
    rw [← List.takeWhile_append_dropWhile (p := p) (l := l)] at mem
    rcases List.mem_append.mp mem with front | rest
    · exact List.mem_takeWhile_imp front
    · exact blank x rest
  · exact fun blank x mem => blank x ((List.dropWhile_suffix p).subset mem)

theorem trimBy_append_right {p : α → Bool} {b : List α} (blank : ∀ x ∈ b, p x) (l : List α) :
    trimBy p (l ++ b) = trimBy p l := by
  rw [trimBy, List.dropWhile_append]
  split
  · rename_i front
    have all : ∀ x ∈ l, p x := by
      intro x mem
      have := List.dropWhile_eq_nil_iff.mp (List.isEmpty_iff.mp front)
      exact this x mem
    rw [trimBy_eq_nil_iff.mpr all, List.dropWhile_eq_nil_iff.mpr blank, List.rdropWhile_nil]
  · rw [rdropWhile_append_blank blank, ← trimBy]

theorem trimBy_decompose (p : α → Bool) (l : List α) :
    ∃ a b, l = a ++ trimBy p l ++ b ∧ (∀ x ∈ a, p x) ∧ ∀ x ∈ b, p x := by
  refine ⟨l.takeWhile p, (l.dropWhile p).rtakeWhile p, ?_, fun x mem => List.mem_takeWhile_imp mem,
    fun x mem => List.mem_rtakeWhile_imp mem⟩
  rw [trimBy, List.append_assoc, List.rdropWhile_append_rtakeWhile,
    List.takeWhile_append_dropWhile]

theorem trimBy_trimBy (p : α → Bool) (l : List α) : trimBy p (trimBy p l) = trimBy p l := by
  obtain ⟨a, b, shape, front, back⟩ := trimBy_decompose p l
  have again : trimBy p l = trimBy p (a ++ trimBy p l ++ b) := congrArg (trimBy p) shape
  rw [trimBy_append_right back, trimBy_append_left front] at again
  exact again.symm

/- Pieces. -/

variable [BEq α] [LawfulBEq α] {sep : α}

theorem splitOn_append_blank {p : α → Bool} {b : List α} (blank : ∀ x ∈ b, p x) (out : sep ∉ b)
    (l : List α) : List.Forall₂ (fun u v => ∃ e, v = u ++ e ∧ ∀ x ∈ e, p x)
      (l.splitOn sep) ((l ++ b).splitOn sep) := by
  induction l with
  | nil =>
    rw [List.nil_append, List.splitOn_eq_singleton out, List.splitOn_nil]
    exact .cons ⟨b, rfl, blank⟩ .nil
  | cons x l ih =>
    rw [List.cons_append, List.splitOn_cons_eq_if_modifyHead, List.splitOn_cons_eq_if_modifyHead]
    split
    · exact .cons ⟨[], rfl, by simp⟩ ih
    · generalize l.splitOn sep = pieces at ih
      generalize (l ++ b).splitOn sep = pieces' at ih
      cases ih with
      | nil => exact .nil
      | cons first rest =>
        obtain ⟨e, rfl, blanks⟩ := first
        exact .cons ⟨e, rfl, blanks⟩ rest

theorem splitOn_blank_append {a : List α} (out : sep ∉ a) (l : List α) :
    (a ++ l).splitOn sep = (l.splitOn sep).modifyHead (a ++ ·) := by
  induction a with
  | nil =>
    rw [List.nil_append]
    cases l.splitOn sep <;> rfl
  | cons x a ih =>
    have other : (x == sep) = false := beq_false_of_ne fun same => out (same ▸ List.mem_cons_self)
    rw [List.cons_append, List.splitOn_cons_eq_if_modifyHead, other,
      ih fun mem => out (List.mem_cons_of_mem _ mem)]
    cases l.splitOn sep <;> rfl

theorem trimmed_pieces {p : α → Bool} (inside : p sep = false) (l : List α) :
    ((trimBy p l).splitOn sep).map (trimBy p) = (l.splitOn sep).map (trimBy p) := by
  obtain ⟨a, b, shape, front, back⟩ := trimBy_decompose p l
  have out : ∀ {c : List α}, (∀ x ∈ c, p x) → sep ∉ c := fun blank mem =>
    Bool.false_ne_true (inside.symm.trans (blank sep mem))
  have padded := splitOn_append_blank back (out back) (a ++ trimBy p l)
  rw [← shape, splitOn_blank_append (out front)] at padded
  have first : ((trimBy p l).splitOn sep).map (trimBy p) =
      (((trimBy p l).splitOn sep).modifyHead (a ++ ·)).map (trimBy p) := by
    cases (trimBy p l).splitOn sep with
    | nil => rfl
    | cons u rest => exact congrArg (· :: rest.map (trimBy p)) (trimBy_append_left front u).symm
  rw [first]
  refine List.forall₂_eq_eq_eq ▸ ?_
  refine List.forall₂_map_left_iff.mpr (List.forall₂_map_right_iff.mpr (padded.imp ?_))
  rintro u _ ⟨e, rfl, blank⟩
  exact (trimBy_append_right blank u).symm

end Text
