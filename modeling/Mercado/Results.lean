import Mathlib.Data.List.Forall2

/-! Computations that can fail, as `Except` has them. -/
namespace Results

theorem bind_ok {ε α β : Type} {x : Except ε α} {f : α → Except ε β} {b : β} :
    (x >>= f) = .ok b ↔ ∃ a, x = .ok a ∧ f a = .ok b := by
  cases x with
  | error e => exact ⟨nofun, nofun⟩
  | ok a => exact ⟨fun h => ⟨a, rfl, h⟩, fun ⟨_, same, h⟩ => by cases same; exact h⟩

theorem mapM_ok {ε α β : Type} {f : α → Except ε β} {xs : List α} {ys : List β} :
    xs.mapM f = .ok ys ↔ List.Forall₂ (fun x y => f x = .ok y) xs ys := by
  induction xs generalizing ys with
  | nil =>
    rw [List.mapM_nil, List.forall₂_nil_left_iff]
    exact ⟨fun same => (Except.ok.inj same).symm, fun same => congrArg Except.ok same.symm⟩
  | cons x xs ih =>
    rw [List.mapM_cons, List.forall₂_cons_left_iff]
    constructor
    · intro mapped
      obtain ⟨y, first, mapped⟩ := bind_ok.mp mapped
      obtain ⟨rest, later, same⟩ := bind_ok.mp mapped
      cases same
      exact ⟨y, rest, first, ih.mp later, rfl⟩
    · rintro ⟨y, rest, first, later, rfl⟩
      exact bind_ok.mpr ⟨y, first, bind_ok.mpr ⟨rest, ih.mpr later, rfl⟩⟩

theorem exists_of_mapM_ok {ε α β : Type} {f : α → Except ε β} {xs : List α} {ys : List β}
    (mapped : xs.mapM f = .ok ys) {y : β} (mem : y ∈ ys) : ∃ x ∈ xs, f x = .ok y := by
  induction mapM_ok.mp mapped with
  | nil => cases mem
  | cons first rest ih =>
    rcases List.mem_cons.mp mem with rfl | later
    · exact ⟨_, List.mem_cons_self, first⟩
    · obtain ⟨x, isMember, made⟩ := ih (mapM_ok.mpr rest) later
      exact ⟨x, List.mem_cons_of_mem _ isMember, made⟩

end Results
