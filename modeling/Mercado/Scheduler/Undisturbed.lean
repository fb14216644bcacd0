import Mercado.Async.Alone
import Mercado.Scheduler.Guarded

/-! The lock when Redis answers and nobody is in between. A call that finds it free does what is
inside, and leaves it free. -/
namespace Mercado.Scheduler.Lock
open Async Redis

variable {C : Type} {R : C → Type} {S O E A α β : Type}

variable [Inhabited O] {M : Machine C R S O E A α} {choose : C → S → O} {p : Nat} {w : World S}

/-- Redis answers, and what is inside goes as it is chosen there. -/
def calmly (choose : C → S → O) : Command C → World S → Choice O
  | .callback x, w => { inner := choose x w.inner }
  | _, _ => { inner := default }

abbrev undisturbed (M : Machine C R S O E A α) (choose : C → S → O) (p : Nat) (c : Command C)
    (w : World S) : Reply R c × World S := exec (commands M) p c (calmly choose c w) w

def World.carried (w : World S) (x : β × S) : β × World S := (x.1, { w with inner := x.2 })

theorem inCallback_finish (t : Task C R β) (w : World S) :
    (inCallback t).finish (undisturbed M choose p) w =
      w.carried (t.finish (fun c s => M.exec p c (choose c s) s) w.inner) := by
  induction t generalizing w with
  | done a => rfl
  | await c k ih => exact ih _ _

theorem getRedisConn_finish (w : World S) :
    (getRedisConn : ExceptT RedisError (LockTask R) Unit).run.finish (undisturbed M choose p) w =
      (.ok (), w) := rfl

theorem acquirePtLock_finish (M : Machine C R S O E A α) (choose : C → S → O) (p : Nat)
    {key : String} (value : String) (ttl : Int) (free : w.keys key = none) :
    ∃ held, (acquirePtLock key value ttl : ExceptT RedisError (LockTask R) Bool).run.finish
      (undisturbed M choose p) w =
        (.ok true, { w with keys := Function.update w.keys key held }) := by
  rw [acquirePtLock, Task.finish_tryBind, getRedisConn_finish]
  simp only
  rw [Task.finish_tryBind, Task.finish_lift, setKeyIfNotExists, Task.finish_bind, Task.finish_call]
  simp only [undisturbed, calmly, exec, free, Option.isSome_none, Bool.false_eq_true, if_false,
    Delivery.through, Task.finish_done, Except.bind, SetnxReply.fromValue]
  rw [Task.finish_tryBind, Task.finish_lift, Task.finish_call]
  simp only [calmly, exec, Delivery.through, Task.finish_pure, World.expire]
  split
  · exact ⟨none, by rw [Function.update_idem]⟩
  · exact ⟨_, rfl⟩

theorem releasePtLock_finish {key : String} (w : World S) :
    (releasePtLock key : ExceptT RedisError (LockTask R) Bool).run.finish
      (undisturbed M choose p) w =
        (.ok true, { w with keys := Function.update w.keys key none }) := by
  rw [releasePtLock, Task.finish_tryBind, getRedisConn_finish]
  simp only
  rw [Task.finish_tryBind, Task.finish_lift, deleteKey, Task.finish_bind, Task.finish_call]
  simp only [undisturbed, calmly, exec, Delivery.through]
  cases (w.keys key).isSome <;> rfl

theorem lockAcquireRelease_finish {settings : SchedulerSettings}
    {callback : ExceptT ProcessTrackerError (Task C R) Unit}
    (free : w.keys settings.producer.lockKey = none) :
    (lockAcquireRelease settings callback).run.finish (undisturbed M choose p) w =
      w.carried (callback.run.finish (fun c s => M.exec p c (choose c s) s) w.inner) := by
  have back : Function.update w.keys settings.producer.lockKey none = w.keys := by
    rw [← free, Function.update_eq_self]
  obtain ⟨held, acquired⟩ := acquirePtLock_finish M choose p "LOCKED" settings.producer.lockTtl
    free
  rw [lockAcquireRelease, Task.finish_tryBind, Task.finish_changeContext, acquired]
  simp only [Except.mapError, if_true]
  rw [Task.finish_tryBind, Task.finish_lift, inCallback_finish]
  simp only [World.carried]
  rw [Task.finish_tryBind, Task.finish_changeContext, releasePtLock_finish]
  simp only [Except.mapError, Function.update_idem, back]
  rfl

end Mercado.Scheduler.Lock

namespace Mercado.Scheduler
open Async Redis Lock

instance : Inhabited Choice := ⟨{}⟩

section Undisturbed

variable {serde : Serde} {conf : SchedulerSettings} {choose : Command → World → Choice} {p : Nat}
  {w : Lock.World World}

theorem alone_unlocked (free : w.keys conf.producer.lockKey = none) (a : Call) :
    (lockedMachine serde conf).alone (calmly choose) p a w =
      w.carried ((machine serde conf).alone choose p a w.inner) := by
  change (lockedProgram serde conf a).finish (undisturbed (machine serde conf) choose p) w = _
  cases a with
  | producerFlow =>
    rw [lockedProgram, Task.finish_bind, lockAcquireRelease_finish free]
    change _ = w.carried (((producerFlow serde conf).run.bind (.done ∘ Result.flow)).finish _ w.inner)
    rw [Task.finish_bind]
    rfl
  | _ => exact inCallback_finish _ w

/-- With the lock, calls one after the other do what they do without it. -/
theorem inTurn_unlocked (free : w.keys conf.producer.lockKey = none) (as : List Call) :
    (lockedMachine serde conf).inTurn (calmly choose) p as w =
      w.carried ((machine serde conf).inTurn choose p as w.inner) := by
  induction as generalizing p w with
  | nil => rfl
  | cons a as ih =>
    have later : (w.carried ((machine serde conf).alone choose p a w.inner)).2.keys
        conf.producer.lockKey = none := free
    rw [Machine.inTurn, alone_unlocked free, ih later]
    rfl

theorem reach_unlocked {keys : String → Option String} {table : Table} {c : LockedConfig}
    (reached : Machine.Reach (lockedMachine serde conf) Machine.anyStep
      (.initial (.start keys (.start table))) c) :
    ∃ c', Machine.Reach (machine serde conf) Machine.anyStep (.initial (.start table)) c' ∧
      c'.world = c.world.inner := by
  obtain ⟨c', reached', related⟩ := (following (lockedProgram_enters serde conf)
    (fun _ _ _ _ => trivial) fun _ _ _ => trivial).reach reached
  exact ⟨c', reached', related.world⟩

end Undisturbed
end Mercado.Scheduler
