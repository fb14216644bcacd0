import Mercado.Storage.KvStore

/-! The unique constraints of a table. The members that make a value unique are added to one
set, and the check goes by the number that SADD replies with. -/
namespace Mercado.Storage
open Async

variable {S T σ : Type} {traits : Traits S T σ} {client : Nat}

def constraintSet (traits : Traits S T σ) (value : S) (w : World) : List String :=
  w.keys.sets ("unique_constraint:" ++ traits.tableName value)

/-- A value may be inserted if none of its members is in the set, which then has them all. -/
structure ConstraintsChecked (traits : Traits S T σ) (value : S) (w : World)
    (r : Except RedisError Unit) (w' : World) : Prop where
  ok : r = .ok () ↔ ∀ m ∈ traits.uniqueConstraints value, m ∉ constraintSet traits value w
  added : r = .ok () → ∀ m ∈ traits.uniqueConstraints value, m ∈ constraintSet traits value w'
  error : ∀ e, r = .error e → constraintSet traits value w' = constraintSet traits value w

def newConstraints (traits : Traits S T σ) (value : S) (w : World) : List String :=
  w.keys.newMembers ("unique_constraint:" ++ traits.tableName value)
    (traits.uniqueConstraints value)

theorem mem_newConstraints {value : S} {w : World} {m : String} :
    m ∈ newConstraints traits value w ↔
      m ∈ traits.uniqueConstraints value ∧ m ∉ constraintSet traits value w := by
  rw [newConstraints, Keyspace.newMembers, List.mem_dedup, List.mem_filter, decide_eq_true_eq]
  rfl

theorem newConstraints_nil_iff {value : S} {w : World} : newConstraints traits value w = [] ↔
    ∀ m ∈ traits.uniqueConstraints value, m ∈ constraintSet traits value w := by
  rw [List.eq_nil_iff_forall_not_mem]
  constructor
  · intro none m mem
    by_contra missing
    exact none m (mem_newConstraints.mpr ⟨mem, missing⟩)
  · intro taken m new
    obtain ⟨mem, missing⟩ := mem_newConstraints.mp new
    exact missing (taken m mem)

theorem newConstraints_single_iff {value : S} {w : World} {m : String}
    (nonempty : traits.uniqueConstraints value ≠ []) :
    (newConstraints traits value w = [m] ∧
        ∀ m' ∈ traits.uniqueConstraints value, m' ∉ constraintSet traits value w) ↔
      m ∉ constraintSet traits value w ∧ ∀ m' ∈ traits.uniqueConstraints value, m' = m := by
  constructor
  · rintro ⟨single, free⟩
    have new : m ∈ newConstraints traits value w := single ▸ List.mem_singleton_self m
    refine ⟨(mem_newConstraints.mp new).2, fun m' mem => ?_⟩
    have new' := mem_newConstraints.mpr ⟨mem, free m' mem⟩
    rw [single] at new'
    exact List.mem_singleton.mp new'
  · rintro ⟨missing, same⟩
    have free : ∀ m' ∈ traits.uniqueConstraints value, m' ∉ constraintSet traits value w :=
      fun m' mem => same m' mem ▸ missing
    have isMember : m ∈ traits.uniqueConstraints value := by
      obtain ⟨first, mem⟩ := List.exists_mem_of_ne_nil _ nonempty
      exact same first mem ▸ mem
    have news : ∀ m', m' ∈ newConstraints traits value w ↔ m' ∈ [m] := by
      intro m'
      rw [mem_newConstraints, List.mem_singleton]
      constructor
      · exact fun new => same m' new.1
      · rintro rfl
        exact ⟨isMember, missing⟩
    exact ⟨List.perm_singleton.mp ((List.perm_ext_iff_of_nodup (List.nodup_dedup _)
      (List.nodup_singleton m)).mpr news), free⟩

def checkReply (traits : Traits S T σ) (value : S) (w : World) : Except RedisError Unit :=
  if (newConstraints traits value w).length = 1 then .ok () else .error .setAddMembersFailed

def World.constrained (traits : Traits S T σ) (value : S) (w : World) : World :=
  w.sadd ("unique_constraint:" ++ traits.tableName value) (traits.uniqueConstraints value)

theorem constrained_set (value : S) (w : World) :
    constraintSet traits value (w.constrained traits value) =
      constraintSet traits value w ++ newConstraints traits value w := Function.update_self ..

theorem checkForConstraints_replay {value : S} {w : World} {o : Choice}
    (answered : o.redis = .answered) (nonempty : traits.uniqueConstraints value ≠ []) :
    Task.replay (exec traits.globMatches client) (checkForConstraints traits value).run [o] w =
      some (checkReply traits value w, w.constrained traits value) := by
  have replied : exec traits.globMatches client (.sadd
      ("unique_constraint:" ++ traits.tableName value) (traits.uniqueConstraints value)) o w =
      (.ok (newConstraints traits value w).length, w.constrained traits value) := by
    simp only [exec, if_neg nonempty, answered]
    rfl
  change Task.replay _ (.await (Command.sadd _ _) _) [o] w = _
  rw [Task.replay, replied, checkReply]
  rcases (newConstraints traits value w).length with _ | _ | more <;> rfl

theorem checked_iff_news {value : S} {w : World}
    (nonempty : traits.uniqueConstraints value ≠ []) :
    ConstraintsChecked traits value w (checkReply traits value w) (w.constrained traits value) ↔
      newConstraints traits value w = [] ∨ ∃ m, newConstraints traits value w = [m] ∧
        ∀ m' ∈ traits.uniqueConstraints value, m' ∉ constraintSet traits value w := by
  have set := @constrained_set _ _ _ traits value w
  cases news : newConstraints traits value w with
  | nil =>
    have taken := newConstraints_nil_iff.mp news
    have refused : checkReply traits value w = .error .setAddMembersFailed := by
      rw [checkReply, news]
      rfl
    obtain ⟨first, isMember⟩ := List.exists_mem_of_ne_nil _ nonempty
    refine iff_of_true ⟨?_, ?_, ?_⟩ (.inl rfl)
    · rw [refused]
      constructor
      · intro accepted
        cases accepted
      · exact fun free => absurd (taken first isMember) (free first isMember)
    · intro _ m mem
      rw [set]
      exact List.mem_append_left _ (taken m mem)
    · intro e _
      rw [set, news, List.append_nil]
  | cons m rest =>
    cases rest with
    | nil =>
      have accepted : checkReply traits value w = .ok () := by
        rw [checkReply, news]
        rfl
      constructor
      · exact fun checked => .inr ⟨m, rfl, checked.ok.mp accepted⟩
      · rintro (⟨⟨⟩⟩ | ⟨m', single, free⟩)
        refine ⟨iff_of_true accepted free, fun _ m' mem => ?_, fun e refused => ?_⟩
        · rw [set]
          exact List.mem_append_right _ (mem_newConstraints.mpr ⟨mem, free m' mem⟩)
        · rw [accepted] at refused
          cases refused
    | cons m' rest =>
      have refused : checkReply traits value w = .error .setAddMembersFailed := by
        rw [checkReply, news]
        exact if_neg (by simp)
      refine iff_of_false (fun checked => ?_) (by simp)
      -- an error, and yet members were added
      have unchanged := checked.error _ refused
      rw [set, news] at unchanged
      exact absurd (List.append_right_eq_self.mp unchanged) (List.cons_ne_nil _ _)

/-- The check is right when all the members were taken, or when a single one was to be added. -/
theorem checkForConstraints_checked {value : S} {w : World} {o : Choice}
    (answered : o.redis = .answered) (nonempty : traits.uniqueConstraints value ≠ []) :
    ∃ r w', Task.replay (exec traits.globMatches client) (checkForConstraints traits value).run
        [o] w = some (r, w') ∧
      (ConstraintsChecked traits value w r w' ↔
        (∀ m ∈ traits.uniqueConstraints value, m ∈ constraintSet traits value w) ∨
          ∃ m, m ∉ constraintSet traits value w ∧
            ∀ m' ∈ traits.uniqueConstraints value, m' = m) := by
  refine ⟨_, _, checkForConstraints_replay answered nonempty, ?_⟩
  rw [checked_iff_news nonempty, newConstraints_nil_iff]
  exact or_congr_right (exists_congr fun m => newConstraints_single_iff nonempty)

def pairTraits : Traits String String String :=
  { textTraits with uniqueConstraints := fun value => [value ++ "_id", value ++ "_email"] }

theorem checkForConstraints_checked_taken :
    ∃ r w', Task.replay (exec pairTraits.globMatches 0) (checkForConstraints pairTraits "a").run
        [{}] World.empty = some (r, w') ∧
      (ConstraintsChecked pairTraits "a" World.empty r w' ↔
        (∀ m ∈ pairTraits.uniqueConstraints "a", m ∈ constraintSet pairTraits "a" World.empty) ∨
          ∃ m, m ∉ constraintSet pairTraits "a" World.empty ∧
            ∀ m' ∈ pairTraits.uniqueConstraints "a", m' = m) :=
  checkForConstraints_checked rfl (List.cons_ne_nil _ _)

/-- Two members of which none was taken are refused, and taken nevertheless. -/
theorem two_free_constraints_refused :
    ∃ r w', Task.replay (exec pairTraits.globMatches 0) (checkForConstraints pairTraits "a").run
        [{}] World.empty = some (r, w') ∧
      ¬ ConstraintsChecked pairTraits "a" World.empty r w' := by
  refine ⟨_, _, rfl, fun checked => ?_⟩
  have unchanged := checked.error .setAddMembersFailed rfl
  exact absurd unchanged (by decide)

end Mercado.Storage
