import Mercado.Async.Ghost
import Mercado.Storage.Constraints
import Mercado.Storage.WriteOrder

/-! What the unique constraints promise, whatever the interleaving: each insertion that succeeds
has a constraint to itself. The record remembers which client has added which member. -/
namespace Mercado.Storage
open Async Redis

structure Claim where
  client : Nat
  set : String
  member : String
  deriving DecidableEq, Repr

section Claims

variable {S T σ : Type} (traits : Traits S T σ) (store : KvRouterStore)

def claimed (client : Nat) : Command → Choice → World → List Claim
  | .sadd key members, o, w =>
    match members, o.redis with
    | [], _ | _, .lost => []
    | _, _ => (w.keys.newMembers key members).map fun m => ⟨client, key, m⟩
  | _, _, _ => []

def claims : Ghost (kvMachine traits store) (List Claim) where
  exec := fun client c o w claims => claims ++ claimed client c o w
  env := fun _ _ claims => claims

/-- Nothing is claimed twice, and what is claimed stays in its set. -/
structure Claimed (w : World × List Claim) : Prop where
  distinct : (w.2.map fun x => (x.set, x.member)).Nodup
  present : ∀ x ∈ w.2, x.member ∈ w.1.keys.sets x.set

def Holder (client : Nat) (value : S) (w : World × List Claim) : Prop :=
  ∃ m ∈ traits.uniqueConstraints value,
    ⟨client, "unique_constraint:" ++ traits.tableName value, m⟩ ∈ w.2

end Claims

theorem through_sets {α : Type} (d : Delivery) {w : World} {x : α × World}
    (same : x.2.keys.sets = w.keys.sets) : (d.through () w x).2.keys.sets = w.keys.sets := by
  cases d with
  | answered | unanswered => exact same
  | lost => rfl

theorem write_sets (w : World) (client : Nat) (location : Location) (value : String) :
    (w.write client location value).keys.sets = w.keys.sets := by
  cases location <;> rfl

theorem exec_sets (globMatches : String → String → Bool) (client : Nat) (c : Command) (o : Choice)
    (w : World) (other : ∀ key members, c ≠ .sadd key members) :
    (exec globMatches client c o w).2.keys.sets = w.keys.sets := by
  cases c with
  | isRedisAvailable | nowUnixTimestamp => rfl
  | hset key field value => exact through_sets o.redis (write_sets ..)
  | hsetnx key field value =>
    refine through_sets o.redis ?_
    simp only [World.writeIfNotExists]
    split
    · rfl
    · exact write_sets ..
  | setNxEx key value seconds =>
    simp only [exec]
    split
    · rfl
    · refine through_sets o.redis ?_
      simp only [World.setNxEx]
      split
      · rfl
      · exact write_sets w client (.plain key) value
  | expire key seconds =>
    refine through_sets o.redis ?_
    simp only [World.expire]
    split <;> rfl
  | sadd key members => exact absurd rfl (other key members)
  | xadd stream fields => exact through_sets o.redis rfl
  | hget | get | hscan => exact through_sets o.redis rfl

theorem Claimed.same {w w' : World} {claims : List Claim} (h : Claimed (w, claims))
    (sets : w'.keys.sets = w.keys.sets) : Claimed (w', claims) :=
  ⟨h.distinct, fun x mem => by
    have := h.present x mem
    simp only at this ⊢
    rwa [sets]⟩

theorem Claimed.sadd {w : World} {claims : List Claim} (h : Claimed (w, claims)) (client : Nat)
    (key : String) (members : List String) :
    Claimed (w.sadd key members,
      claims ++ (w.keys.newMembers key members).map fun m => ⟨client, key, m⟩) := by
  have sets : ∀ k, (w.sadd key members).keys.sets k =
      if k = key then w.keys.sets key ++ w.keys.newMembers key members else w.keys.sets k := by
    intro k
    exact Function.update_apply ..
  constructor
  · simp only [List.map_append, List.map_map]
    refine List.nodup_append.mpr ⟨h.distinct, ?_, ?_⟩
    · refine (List.nodup_dedup _).map fun m m' same => ?_
      exact congrArg Prod.snd same
    · rintro _ old _ new rfl
      obtain ⟨x, mem, same⟩ := List.mem_map.mp old
      obtain ⟨m, new, made⟩ := List.mem_map.mp new
      cases (made.trans same.symm : (key, m) = (x.set, x.member))
      have taken := h.present x mem
      simp only [Keyspace.newMembers, List.mem_dedup, List.mem_filter, decide_eq_true_eq] at new
      exact new.2 taken
  · intro x mem
    simp only [sets]
    rcases List.mem_append.mp mem with old | new
    · have := h.present x old
      split
      · rename_i same
        exact List.mem_append_left _ (same ▸ this)
      · exact this
    · obtain ⟨m, isNew, rfl⟩ := List.mem_map.mp new
      exact (if_pos rfl : ite (key = key) _ _ = _) ▸ List.mem_append_right _ isNew

theorem Claimed.exec {w : World} {claims : List Claim} (h : Claimed (w, claims))
    (globMatches : String → String → Bool) (client : Nat) (c : Command) (o : Choice) :
    Claimed ((exec globMatches client c o w).2, claims ++ claimed client c o w) := by
  by_cases sadd : ∃ key members, c = .sadd key members
  · obtain ⟨key, members, rfl⟩ := sadd
    cases members with
    | nil =>
      simp only [claimed, Storage.exec, List.append_nil, if_true]
      exact h
    | cons m rest =>
      simp only [claimed, Storage.exec]
      rw [if_neg (List.cons_ne_nil _ _)]
      cases o.redis with
      | answered | unanswered => exact h.sadd client key (m :: rest)
      | lost =>
        simp only [List.append_nil]
        exact h
  · have other : ∀ key members, c ≠ .sadd key members := fun key members same =>
      sadd ⟨key, members, same⟩
    have none : claimed client c o w = [] := by
      cases c <;> first | rfl | exact absurd rfl (other _ _)
    rw [none, List.append_nil]
    exact h.same (exec_sets globMatches client c o w other)

theorem sadd_one {globMatches : String → String → Bool} {client : Nat} {key : String}
    {members : List String} {o : Choice} {w : World}
    (one : (exec globMatches client (.sadd key members) o w).1 = .ok 1) :
    ∃ m ∈ members, ⟨client, key, m⟩ ∈ claimed client (.sadd key members) o w := by
  cases members with
  | nil => cases one
  | cons first rest =>
    simp only [exec, List.cons_ne_nil, if_false] at one
    cases answer : o.redis with
    | lost | unanswered =>
      rw [answer] at one
      cases one
    | answered =>
      rw [answer] at one
      obtain ⟨m, single⟩ := List.length_eq_one_iff.mp (Except.ok.inj one)
      have new : m ∈ w.keys.newMembers key (first :: rest) := single ▸ List.mem_singleton_self m
      refine ⟨m, (List.mem_filter.mp (List.mem_dedup.mp new)).1, ?_⟩
      simp only [claimed, answer]
      exact List.mem_map_of_mem new

section Insertions

variable {S T σ : Type} (traits : Traits S T σ) (store : KvRouterStore)

def claimSetting (client : Nat) : Setting Command Reply (World × List Claim) Choice where
  exec := (claims traits store).machine.exec client
  inv := Claimed
  rely := fun w w' => w.2 ⊆ w'.2
  guar := fun _ w w' => w.2 ⊆ w'.2
  allow := fun _ _ _ => True

variable {traits store} {client : Nat} {w : World × List Claim}

theorem holder_stable (value : S) :
    (claimSetting traits store client).Stable (Holder traits client value) :=
  fun _ _ grown _ ⟨m, isConstraint, mem⟩ => ⟨m, isConstraint, grown mem⟩

theorem grows_step {I : World × List Claim → Prop}
    (kept : ∀ w w', w.2 ⊆ w'.2 → I w → I w') (c : Command) :
    (claimSetting traits store client).Step I c fun _ => I := by
  intro w o inv _ holds
  have grown : w.2 ⊆ w.2 ++ claimed client c o w.1 := List.subset_append_left ..
  exact ⟨grown, inv.exec traits.globMatches client c o, kept w _ grown holds⟩

theorem holder_holds {α : Type} (value : S) (t : KvTask α) (holder : Holder traits client value w) :
    (claimSetting traits store client).Holds (fun _ => Holder traits client value) t w :=
  .every (holder_stable value)
    (fun c _ => grows_step (fun _ _ grown ⟨m, isConstraint, mem⟩ => ⟨m, isConstraint, grown mem⟩) c)
    (Task.every_of_all fun _ => trivial) holder

theorem true_holds {α : Type} (t : KvTask α) :
    (claimSetting traits store client).Holds (fun _ _ => True) t w :=
  .every (A := fun _ => True) (I := fun _ => True) (fun _ _ _ _ _ => trivial)
    (fun c _ => grows_step (fun _ _ _ _ => trivial) c) (Task.every_of_all fun _ => trivial) trivial

/-- The check accepts a value only by giving the client one of its constraints. -/
theorem checkForConstraints_claims (value : S) :
    (claimSetting traits store client).Holds
      (fun r w => r = .ok () → Holder traits client value w)
      (checkForConstraints traits value).run w := by
  have step : (claimSetting traits store client).Step (fun _ => True)
      (.sadd ("unique_constraint:" ++ traits.tableName value) (traits.uniqueConstraints value))
      fun r w => r = .ok 1 → Holder traits client value w := by
    intro w o inv _ _
    have grows : (claimSetting traits store client).Step (fun _ => True)
        (.sadd ("unique_constraint:" ++ traits.tableName value) (traits.uniqueConstraints value))
        fun _ _ => True := grows_step (fun _ _ _ _ => trivial) _
    obtain ⟨grown, kept, -⟩ := grows w o inv trivial trivial
    refine ⟨grown, kept, fun one => ?_⟩
    obtain ⟨m, isConstraint, mine⟩ := sadd_one one
    exact ⟨m, isConstraint, List.mem_append_right _ mine⟩
  refine .bindExcept (.changeContext (.bind ((Setting.Holds.call (fun _ _ _ _ _ => trivial) step
    trivial).mono ?_)))
  intro r w holder
  cases r with
  | error e => nofun
  | ok n =>
    match n with
    | 0 => nofun
    | 1 => exact fun _ => holder rfl
    | n + 2 => nofun

def inserts : KvOperation S σ → Option S
  | .setNx value _ | .hSetNx _ value _ => some value
  | _ => none

theorem kvWrapper_claims (op : KvOperation S σ) (key : String) (value : S)
    (insert : inserts op = some value) :
    (claimSetting traits store client).Holds
      (fun r w => ∀ reply, r = .ok reply → Holder traits client value w)
      (kvWrapper (T := T) traits store op key).run w := by
  have failed {e : RedisError} {w : World × List Claim} : ∀ reply : KvResult T,
      (Except.error e : Except RedisError (KvResult T)) = .ok reply →
        Holder traits client value w := nofun
  refine .bindExcept ((true_holds _).mono ?_)
  intro r w _
  cases r with
  | error e => exact failed
  | ok =>
    cases op with
    | hSetNx field v sql =>
      cases insert
      refine .bindExcept ((checkForConstraints_claims value).mono ?_)
      intro r w checked
      cases r with
      | error e => exact failed
      | ok => exact (holder_holds value _ (checked rfl)).mono fun _ _ holder _ _ => holder
    | setNx v sql =>
      cases insert
      refine .bindExcept ((true_holds _).mono ?_)
      intro r w _
      cases r with
      | error e => exact failed
      | ok reply =>
        refine .bindExcept ((checkForConstraints_claims value).mono ?_)
        intro r w checked
        cases r with
        | error e => exact failed
        | ok => exact (holder_holds value _ (checked rfl)).mono fun _ _ holder _ _ => holder
    | hset | hGet | get | scan => cases insert

variable (traits store)

def uniqueness : Discipline (claims traits store).machine Machine.anyStep
    ((Config.initial World.empty : KvConfig S T σ).withGhost []) where
  inv := Claimed
  rely := fun _ w w' => w.2 ⊆ w'.2
  guar := fun _ _ _ w w' => w.2 ⊆ w'.2
  allow := fun _ _ _ _ => True
  post := fun client call r w => ∀ value reply, inserts call.op = some value → r = .ok reply →
    Holder traits client value w
  rely_refl := fun _ _ => List.Subset.refl _
  rely_trans := fun _ _ _ _ => List.Subset.trans
  starts := ⟨⟨List.nodup_nil, nofun⟩, fun _ => rfl⟩
  allowed := fun _ _ => trivial
  spawned := by
    intro c client call _ _ _ _
    cases insert : inserts call.op with
    | none => exact (true_holds _).mono fun _ _ _ _ _ same => nomatch same
    | some value =>
      refine (kvWrapper_claims call.op call.key value insert).mono ?_
      rintro r w holder _ reply ⟨⟩ ok
      exact holder reply ok
  others := fun _ _ _ _ _ kept => kept
  env := by
    intro c key t _ _ inv moved
    cases Option.some.inj moved
    exact ⟨inv.same rfl, fun _ _ _ _ _ => List.Subset.refl _⟩
  kept := by
    intro q call r c act d _ _ stepped _ _ _ holder value reply insert ok
    obtain ⟨m, isConstraint, mine⟩ := holder value reply insert ok
    refine ⟨m, isConstraint, ?_⟩
    rcases Machine.step_world stepped with same | ⟨p, o, a, cmd, k, _, _, world⟩ | ⟨e, _, moved⟩
    · exact same ▸ mine
    · rw [world]
      exact List.mem_append_left _ mine
    · have world : d.world = (c.world.1.drop e, c.world.2) := (Option.some.inj moved).symm
      rw [world]
      exact mine

variable {traits store}

def Inserted (c : KvConfig S T σ) (client : Nat) (value : S) : Prop :=
  ∃ call reply, c.procs client = .live call (.done (.ok reply)) ∧ inserts call.op = some value

/-- Each insertion that has succeeded has one of its own constraints to itself, in the set of its
table, whatever the calls, their interleaving, the failures of Redis and the keys that expire. -/
theorem insertions_claim_constraints {c : KvConfig S T σ}
    (reached : Machine.Reach (kvMachine traits store) Machine.anyStep
      (.initial World.empty) c) :
    ∃ claim : Nat → String,
      (∀ p value, Inserted c p value → claim p ∈ traits.uniqueConstraints value ∧
        claim p ∈ constraintSet traits value c.world) ∧
      ∀ p q v w, Inserted c p v → Inserted c q w → traits.tableName v = traits.tableName w →
        claim p = claim q → p = q := by
  obtain ⟨claimed, reached⟩ := (claims traits store).reach [] reached
  have sound := (uniqueness traits store).sound reached
  have holds : ∀ p, ∃ m, ∀ value, Inserted c p value → m ∈ traits.uniqueConstraints value ∧
      ⟨p, "unique_constraint:" ++ traits.tableName value, m⟩ ∈ claimed := by
    intro p
    by_cases some : ∃ value, Inserted c p value
    · obtain ⟨value, call, reply, live, insert⟩ := some
      obtain ⟨m, isConstraint, mine⟩ := sound.holds p call _ live value reply insert rfl
      refine ⟨m, ?_⟩
      rintro v ⟨call', reply', live', insert'⟩
      cases live.symm.trans live'
      cases insert.symm.trans insert'
      exact ⟨isConstraint, mine⟩
    · exact ⟨"", fun value inserted => absurd ⟨value, inserted⟩ some⟩
  choose claim holds using holds
  refine ⟨claim, ?_, ?_⟩
  · intro p value inserted
    obtain ⟨isConstraint, mine⟩ := holds p value inserted
    exact ⟨isConstraint, sound.inv.present _ mine⟩
  · intro p q v w insertedP insertedQ table same
    have mineP := (holds p v insertedP).2
    have mineQ := (holds q w insertedQ).2
    rw [table, same] at mineP
    have := List.inj_on_of_nodup_map sound.inv.distinct mineP mineQ rfl
    exact congrArg Claim.client this

end Insertions

/-- Two clients in step, each with a value of its own. -/
theorem insertions_claim_constraints_overlapping :
    ∃ c : KvConfig String String String, Inserted c 0 "a" ∧ Inserted c 1 "b" ∧
      ∃ claim : Nat → String,
        (∀ p value, Inserted c p value → claim p ∈ textTraits.uniqueConstraints value ∧
          claim p ∈ constraintSet textTraits value c.world) ∧
        ∀ p q v w, Inserted c p v → Inserted c q w →
          textTraits.tableName v = textTraits.tableName w → claim p = claim q → p = q := by
  have ran : (kvMachine textTraits textStore).run (.initial .empty)
      [.spawn 0 ⟨.hSetNx "f" "a" "sql1", "k"⟩, .spawn 1 ⟨.hSetNx "g" "b" "sql2", "k"⟩,
        .step 0 {}, .step 1 {}, .step 0 {}, .step 1 {}, .step 0 {}, .step 1 {}, .step 0 {},
        .step 1 {}, .step 0 {}, .step 1 {}, .step 0 {}, .step 1 {}] = some _ := rfl
  exact ⟨_, ⟨_, _, rfl, rfl⟩, ⟨_, _, rfl, rfl⟩,
    insertions_claim_constraints (Machine.reach_of_run ran)⟩

end Mercado.Storage
