import Mercado.Scheduler.Lock

/-! Who holds the scheduler lock, and what that says about the callbacks. -/
namespace Mercado.Scheduler.Lock
open Async Redis

variable {C : Type} {R : C → Type} {S O E A : Type}

abbrev LockConfig (R : C → Type) (S A : Type) :=
  Config (Command C) (Reply R) (World S) A (Except ProcessTrackerError Unit)

def InCallback (c : LockConfig R S A) (client : Nat) : Prop :=
  ∃ call x k, c.procs client = .live call (.await (.callback x) k)

def Owns (client : Nat) (key : String) (w : World S) : Prop :=
  ∃ held, w.keys key = some held ∧ held.owner = some client

/-- The key stays as long as the instance that has set it still awaits something: it
does not expire, and no time to live ends at once. -/
def persistent (lockKey : String) (c : LockConfig R S A) : Action (Choice O) (Env E) A → Prop
  | .env (.expired key) => key = lockKey → ∀ p call cmd k,
    c.procs p = .live call (.await cmd k) → ¬ Owns p lockKey c.world
  | .step p _ => ∀ call key seconds k, c.procs p = .live call (.await (.expire key seconds) k) →
    0 < seconds
  | _ => True

/-- The commands that an instance may only issue as the owner of the key: those of the
callback, and the deletion of the key. -/
def permitted (lockKey : String) (p : Nat) (w : World S) : Command C → Prop
  | .callback _ => Owns p lockKey w
  | .del key => key = lockKey ∧ Owns p lockKey w
  | _ => True

/-- At the start the lock may have been left behind by an earlier instance. -/
def World.start (keys : String → Option String) (inner : S) : World S :=
  ⟨fun key => (keys key).map fun value => ⟨value, none⟩, inner⟩

section Holds

variable (M : Machine C R S O E A (Except ProcessTrackerError Unit)) (lockKey : String) (p : Nat)

def instanceSetting : Setting (Command C) (Reply R) (World S) (Choice O) where
  exec := exec M p
  inv := fun _ => True
  rely := fun w w' => Owns p lockKey w → Owns p lockKey w'
  guar := fun cmd w w' => permitted lockKey p w cmd ∧
    ∀ q, q ≠ p → Owns q lockKey w → Owns q lockKey w'
  allow := fun cmd _ _ => ∀ key seconds, cmd = .expire key seconds → 0 < seconds

variable {M lockKey p} {w : World S}

theorem owns_stable : (instanceSetting M lockKey p).Stable (Owns p lockKey) :=
  fun _ _ moved _ owns => moved owns

theorem anything_stable : (instanceSetting M lockKey p).Stable fun _ => True :=
  fun _ _ _ _ _ => trivial

theorem owner_unique {q : Nat} (mine : Owns p lockKey w) (yours : Owns q lockKey w) : p = q := by
  obtain ⟨held, found, owner⟩ := mine
  obtain ⟨held', found', owner'⟩ := yours
  cases found.symm.trans found'
  exact Option.some.inj (owner.symm.trans owner')

theorem owns_expired {key : String} {q : Nat} (other : key ≠ lockKey) (owns : Owns q lockKey w) :
    Owns q lockKey { w with keys := Function.update w.keys key none } := by
  obtain ⟨held, found, owner⟩ := owns
  exact ⟨held, (Function.update_of_ne (Ne.symm other) ..).trans found, owner⟩

theorem through_owns {ε α : Type} {q : Nat} {d : Delivery} {err : ε} {x : α × World S}
    (owns : Owns q lockKey w) (effect : Owns q lockKey x.2) :
    Owns q lockKey (d.through err w x).2 := by
  cases d with
  | answered | unanswered => exact effect
  | lost => exact owns

theorem isRedisAvailable_step {I : World S → Prop} :
    (instanceSetting M lockKey p).Step I .isRedisAvailable fun _ => I :=
  fun _ _ _ _ holds => ⟨⟨trivial, fun _ _ owns => owns⟩, trivial, holds⟩

theorem setNx_step {value : String} :
    (instanceSetting M lockKey p).Step (fun _ => True) (.setNx lockKey value) fun r w =>
      ∀ text, r = .ok (some text) → Owns p lockKey w := by
  intro w o _ _ _
  cases present : w.keys lockKey with
  | some held =>
    simp only [instanceSetting, exec, present, Option.isSome_some, if_true]
    refine ⟨⟨trivial, fun q _ owns => through_owns owns owns⟩, trivial, fun text ok => ?_⟩
    cases (Delivery.through_ok ok).1
  | none =>
    simp only [instanceSetting, exec, present, Option.isSome_none, Bool.false_eq_true, if_false]
    refine ⟨⟨trivial, fun q _ owns => ?_⟩, trivial, fun text ok => ?_⟩
    · obtain ⟨held, found, _⟩ := owns
      cases found.symm.trans present
    · rw [(Delivery.through_ok ok).2]
      exact ⟨_, Function.update_self .., rfl⟩

theorem expire_step {seconds : Int} :
    (instanceSetting M lockKey p).Step (Owns p lockKey) (.expire lockKey seconds)
      fun _ => Owns p lockKey := by
  intro w o _ positive owns
  have kept : w.expire lockKey seconds = w := if_neg (Int.not_le.mpr (positive _ _ rfl))
  simp only [instanceSetting, exec, kept]
  exact ⟨⟨trivial, fun q _ owns => through_owns owns owns⟩, trivial, through_owns owns owns⟩

theorem del_step : (instanceSetting M lockKey p).Step (Owns p lockKey) (.del lockKey)
    fun _ _ => True := by
  intro w o _ _ owns
  refine ⟨⟨⟨rfl, owns⟩, fun q differ yours => ?_⟩, trivial, trivial⟩
  exact absurd (owner_unique yours owns) differ

theorem callback_step {x : C} : (instanceSetting M lockKey p).Step (Owns p lockKey) (.callback x)
    fun _ => Owns p lockKey :=
  fun _ _ _ _ owns => ⟨⟨owns, fun _ _ yours => yours⟩, trivial, owns⟩

theorem inCallback_holds {α : Type} (t : Task C R α) (owns : Owns p lockKey w) :
    (instanceSetting M lockKey p).Holds (fun _ => Owns p lockKey) (inCallback t) w := by
  induction t generalizing w with
  | done a => exact owns
  | await x k ih => exact .await owns_stable callback_step (fun r _ owns => ih r owns) owns

theorem getRedisConn_holds {I : World S → Prop}
    (stable : (instanceSetting M lockKey p).Stable I) (holds : I w) :
    (instanceSetting M lockKey p).Holds (fun _ => I)
      (getRedisConn : ExceptT RedisError (LockTask R) Unit).run w := by
  refine .bindExcept (.lift ((Setting.Holds.call stable isRedisAvailable_step holds).mono ?_))
  intro available w holds
  cases available <;> exact holds

theorem acquirePtLock_holds {value : String} {ttl : Int} :
    (instanceSetting M lockKey p).Holds (fun r w => r = .ok true → Owns p lockKey w)
      (acquirePtLock lockKey value ttl : ExceptT RedisError (LockTask R) Bool).run w := by
  refine .bindExcept ((getRedisConn_holds anything_stable trivial).mono ?_)
  intro r w _
  cases r with
  | error e => nofun
  | ok =>
    refine .bindExcept (.lift (.bind ((Setting.Holds.call anything_stable setNx_step trivial).mono ?_)))
    intro r w acquired
    match r with
    | .error () => nofun
    | .ok none => nofun
    | .ok (some text) =>
      refine .bindExcept (.lift ((Setting.Holds.call owns_stable expire_step
        (acquired text rfl)).mono ?_))
      intro r w owns
      cases r with
      | ok => exact fun _ => owns
      | error =>
        refine .bindExcept (.lift (.bind ((Setting.Holds.call owns_stable del_step owns).mono ?_)))
        exact fun _ _ _ => nofun

theorem releasePtLock_holds (owns : Owns p lockKey w) :
    (instanceSetting M lockKey p).Holds (fun _ _ => True)
      (releasePtLock lockKey : ExceptT RedisError (LockTask R) Bool).run w := by
  refine .bindExcept ((getRedisConn_holds owns_stable owns).mono ?_)
  intro r w owns
  cases r with
  | error e => trivial
  | ok =>
    refine .bindExcept (.lift (.bind ((Setting.Holds.call owns_stable del_step owns).mono ?_)))
    intro r w _
    match r with
    | .error () => trivial
    | .ok n => cases h : DelReply.fromValue n <;> simp only [Except.bind, h] <;> trivial

theorem lockAcquireRelease_holds (settings : SchedulerSettings)
    (callback : ExceptT ProcessTrackerError (Task C R) Unit) :
    (instanceSetting M settings.producer.lockKey p).Holds (fun _ _ => True)
      (lockAcquireRelease settings callback).run w := by
  refine .bindExcept (.bind (acquirePtLock_holds.mono ?_))
  intro r w acquired
  match r with
  | .error e => trivial
  | .ok false => trivial
  | .ok true =>
    refine .bindExcept (.lift ((inCallback_holds callback.run (acquired rfl)).mono ?_))
    intro result w owns
    refine .bindExcept (.bind ((releasePtLock_holds owns).mono ?_))
    intro r w _
    cases r <;> trivial

end Holds

variable {M : Machine C R S O E A (Except ProcessTrackerError Unit)} {settings : SchedulerSettings}
  {keys : String → Option String} {inner : S}

def instances (M : Machine C R S O E A (Except ProcessTrackerError Unit))
    (settings : SchedulerSettings) (keys : String → Option String) (inner : S) :
    Discipline (machine settings M) (persistent settings.producer.lockKey)
      (.initial (.start keys inner)) where
  inv := fun _ => True
  rely := fun p w w' => Owns p settings.producer.lockKey w → Owns p settings.producer.lockKey w'
  guar := fun p _ cmd w w' => permitted settings.producer.lockKey p w cmd ∧
    ∀ q, q ≠ p → Owns q settings.producer.lockKey w → Owns q settings.producer.lockKey w'
  allow := fun _ cmd _ _ => ∀ key seconds, cmd = .expire key seconds → 0 < seconds
  post := fun _ _ _ _ => True
  rely_refl := fun _ _ owns => owns
  rely_trans := fun _ _ _ _ h g owns => g (h owns)
  starts := ⟨trivial, fun _ => rfl⟩
  allowed := by
    intro c p o call cmd k live met key seconds same
    subst same
    exact met call key seconds k live
  spawned := fun _ _ _ _ => lockAcquireRelease_holds settings _
  others := fun _ _ _ differ _ kept => kept.2 _ (Ne.symm differ)
  env := by
    intro c e t _ met _ moved
    refine ⟨trivial, fun q call cmd k live owns => ?_⟩
    cases e with
    | inner e =>
      obtain ⟨s, _, rfl⟩ := Option.map_eq_some_iff.mp moved
      exact owns
    | expired key =>
      cases Option.some.inj moved
      by_cases here : key = settings.producer.lockKey
      · exact absurd owns (met here q call cmd k live)
      · exact owns_expired here owns
  kept := fun _ _ _ _ _ _ _ => trivial

theorem reach_permitted [Inhabited O] {c : LockConfig R S A} {p : Nat} {call : A}
    {cmd : Command C} {k : Reply R cmd → LockTask R (Except ProcessTrackerError Unit)}
    (reached : Machine.Reach (machine settings M) (persistent settings.producer.lockKey)
      (.initial (.start keys inner)) c)
    (live : c.procs p = .live call (.await cmd k))
    (other : ∀ key seconds, cmd ≠ .expire key seconds) :
    permitted settings.producer.lockKey p c.world cmd := by
  have sound := (instances M settings keys inner).sound reached
  have step := sound.holds p call _ live c.world id trivial ⟨default, .answered, true⟩
    fun key seconds same => absurd same (other key seconds)
  exact step.1.1

/-- As long as the key lives while its owner is between setting and releasing it, at
most one instance is in its callback, and nobody deletes a key that another one has set. -/
theorem lock_exclusive [Inhabited O] {c : LockConfig R S A}
    (reached : Machine.Reach (machine settings M) (persistent settings.producer.lockKey)
      (.initial (.start keys inner)) c) :
    (∀ p q, InCallback c p → InCallback c q → p = q) ∧
      ∀ p call key k, c.procs p = .live call (.await (.del key) k) →
        ∀ held, c.world.keys key = some held → held.owner = some p := by
  constructor
  · rintro p q ⟨_, _, _, liveP⟩ ⟨_, _, _, liveQ⟩
    have mine : Owns p settings.producer.lockKey c.world := reach_permitted reached liveP nofun
    have yours : Owns q settings.producer.lockKey c.world := reach_permitted reached liveQ nofun
    exact owner_unique mine yours
  · intro p call key k live held found
    obtain ⟨rfl, held', found', owner⟩ := reach_permitted reached live nofun
    cases found.symm.trans found'
    exact owner

/- A callback of one step. -/
def oneStep : Machine Unit (fun _ => Unit) Unit Unit Unit Unit (Except ProcessTrackerError Unit) where
  exec := fun _ _ _ s => ((), s)
  env := fun _ _ => none
  program := fun _ => .await () fun _ => .done (.ok ())

/-- A first instance is in its callback and a second one waits outside. -/
theorem lock_exclusive_contended : ∃ c : LockConfig (fun _ : Unit => Unit) Unit Unit,
    InCallback c 0 ∧ c.procs 1 = .live () (.done (.ok ())) ∧
    ∀ p q, InCallback c p → InCallback c q → p = q := by
  let steps : List (Action (Choice Unit) (Env Unit) Unit) :=
    [.spawn 0 (), .step 0 ⟨(), .answered, true⟩, .step 0 ⟨(), .answered, true⟩,
      .step 0 ⟨(), .answered, true⟩, .spawn 1 (), .step 1 ⟨(), .answered, true⟩,
      .step 1 ⟨(), .answered, true⟩]
  have ran : (machine sampleSettings oneStep).run (.initial (.start (fun _ => none) ())) steps =
      some _ := rfl
  have met : (machine sampleSettings oneStep).Meets (persistent "PRODUCER_LOCKING_KEY")
      (.initial (.start (fun _ => none) ())) steps := by
    refine Machine.meets_cons trivial rfl (Machine.meets_cons ?_ rfl (Machine.meets_cons ?_ rfl
      (Machine.meets_cons ?_ rfl (Machine.meets_cons trivial rfl (Machine.meets_cons ?_ rfl
        (Machine.meets_cons ?_ rfl trivial))))))
    all_goals
      intro call key seconds k live
      cases live
    decide
  exact ⟨_, ⟨_, _, _, rfl⟩, rfl, (lock_exclusive (Machine.reach_of_meets met ran)).1⟩

/-- The key expires under a slow callback: two instances are in their callbacks, and the
first one deletes the key of the second. -/
theorem lock_expired : ∃ c d e : LockConfig (fun _ : Unit => Unit) Unit Unit,
    Machine.Reach (machine sampleSettings oneStep) Machine.anyStep
      (.initial (.start (fun _ => none) ())) c ∧ InCallback c 0 ∧ InCallback c 1 ∧
    Machine.Reach (machine sampleSettings oneStep) Machine.anyStep c d ∧
    (∃ k, d.procs 0 = .live () (.await (.del "PRODUCER_LOCKING_KEY") k)) ∧
    d.world.keys "PRODUCER_LOCKING_KEY" = some ⟨"LOCKED", some 1⟩ ∧
    (machine sampleSettings oneStep).step d (.step 0 ⟨(), .answered, true⟩) = some e ∧
    e.world.keys "PRODUCER_LOCKING_KEY" = none ∧ InCallback e 1 := by
  let before : List (Action (Choice Unit) (Env Unit) Unit) :=
    [.spawn 0 (), .step 0 ⟨(), .answered, true⟩, .step 0 ⟨(), .answered, true⟩,
      .step 0 ⟨(), .answered, true⟩, .env (.expired "PRODUCER_LOCKING_KEY"), .spawn 1 (),
      .step 1 ⟨(), .answered, true⟩, .step 1 ⟨(), .answered, true⟩,
      .step 1 ⟨(), .answered, true⟩]
  let after : List (Action (Choice Unit) (Env Unit) Unit) :=
    [.step 0 ⟨(), .answered, true⟩, .step 0 ⟨(), .answered, true⟩]
  have ran : (machine sampleSettings oneStep).run (.initial (.start (fun _ => none) ())) before =
      some _ := rfl
  have whole : (machine sampleSettings oneStep).run (.initial (.start (fun _ => none) ()))
      (before ++ after) = some _ := rfl
  exact ⟨_, _, _, Machine.reach_of_run ran, ⟨_, _, _, rfl⟩, ⟨_, _, _, rfl⟩,
    Machine.reach_of_run (Machine.run_rest ran whole), ⟨_, rfl⟩, rfl, rfl, rfl, ⟨_, _, _, rfl⟩⟩

end Mercado.Scheduler.Lock
