import Mathlib.Logic.Function.Basic
import Mercado.Async.Rely
import Mercado.Redis.Stream
import Mercado.Replies
import Mercado.Scheduler.Settings

/-! `lock_acquire_release`: a key set if absent, with a time to live, around a callback
of any kind. The commands of the callback are those of another machine. -/
namespace Mercado.Scheduler.Lock
open Async Redis

inductive Command (C : Type) where
  | isRedisAvailable
  | setNx (key value : String)
  | expire (key : String) (seconds : Int)
  | del (key : String)
  | callback (c : C)

abbrev Reply {C : Type} (R : C → Type) : Command C → Type
  | .isRedisAvailable => Bool
  | .setNx .. => Except Unit (Option String)
  | .expire .. => Except Unit Unit
  | .del .. => Except Unit Nat
  | .callback c => R c

section Functions

variable {C : Type} {R : C → Type}

abbrev LockTask {C : Type} (R : C → Type) := Task (Command C) (Reply R)

def inCallback {α : Type} : Task C R α → LockTask R α
  | .done a => .done a
  | .await c k => .await (.callback c) fun r => inCallback (k r)

def getRedisConn : ExceptT RedisError (LockTask R) Unit := do
  if ← ExceptT.lift (Task.call (R := Reply R) .isRedisAvailable) then
    return ()
  else
    throw .redisConnectionError

def setKeyIfNotExists (key value : String) : LockTask R (Except Unit SetnxReply) :=
  (Task.call (R := Reply R) (.setNx key value)).bind fun r => .done (r.bind SetnxReply.fromValue)

def deleteKey (key : String) : LockTask R (Except Unit DelReply) :=
  (Task.call (R := Reply R) (.del key)).bind fun r => .done (r.bind DelReply.fromValue)

/-- A lock whose time to live cannot be set is given back; whether that succeeds is
not looked at. -/
def acquirePtLock (lockKey lockVal : String) (ttl : Int) :
    ExceptT RedisError (LockTask R) Bool := do
  getRedisConn
  match ← ExceptT.lift (setKeyIfNotExists lockKey lockVal) with
  | .ok .keySet =>
    match ← ExceptT.lift (Task.call (R := Reply R) (.expire lockKey ttl)) with
    | .ok () => return true
    | .error () =>
      let _ ← ExceptT.lift (deleteKey lockKey)
      return false
  | .ok .keyNotSet => return false
  | .error () => return false

def releasePtLock (lockKey : String) : ExceptT RedisError (LockTask R) Bool := do
  getRedisConn
  match ← ExceptT.lift (deleteKey lockKey) with
  | .ok _ => return true
  | .error () => return false

def lockAcquireRelease (settings : SchedulerSettings)
    (callback : ExceptT ProcessTrackerError (Task C R) Unit) :
    ExceptT ProcessTrackerError (LockTask R) Unit := do
  let lockKey := settings.producer.lockKey
  let acquired ← Task.changeContext (.eRedisError .redisConnectionError)
    (acquirePtLock lockKey "LOCKED" settings.producer.lockTtl).run
  if acquired then
    let result ← ExceptT.lift (inCallback callback.run)
    let _ ← Task.changeContext (.eRedisError .redisConnectionError) (releasePtLock lockKey).run
    .mk (.done result)
  else
    return ()

end Functions

/-- A key and who has set it, if that was one of the instances. -/
structure Held where
  value : String
  owner : Option Nat
  deriving DecidableEq, Repr

structure World (S : Type) where
  keys : String → Option Held
  inner : S

/-- A key that expires at once is deleted. -/
def World.expire {S : Type} (w : World S) (key : String) (seconds : Int) : World S :=
  if seconds ≤ 0 then { w with keys := Function.update w.keys key none } else w

structure Choice (O : Type) where
  inner : O
  redis : Delivery := .answered
  available : Bool := true

inductive Env (E : Type) where
  | expired (key : String)
  | inner (e : E)

section Machine

variable {C : Type} {R : C → Type} {S O E A : Type}

def exec (M : Machine C R S O E A (Except ProcessTrackerError Unit)) (client : Nat) :
    (c : Command C) → Choice O → World S → Reply R c × World S
  | .isRedisAvailable, o, w => (o.available, w)
  | .setNx key value, o, w =>
    o.redis.through () w (if (w.keys key).isSome then none else some "OK",
      if (w.keys key).isSome then w
      else { w with keys := Function.update w.keys key (some ⟨value, some client⟩) })
  | .expire key seconds, o, w => o.redis.through () w ((), w.expire key seconds)
  | .del key, o, w =>
    o.redis.through () w (if (w.keys key).isSome then 1 else 0,
      { w with keys := Function.update w.keys key none })
  | .callback c, o, w =>
    let x := M.exec client c o.inner w.inner
    (x.1, { w with inner := x.2 })

def machine (settings : SchedulerSettings)
    (M : Machine C R S O E A (Except ProcessTrackerError Unit)) :
    Machine (Command C) (Reply R) (World S) (Choice O) (Env E) A
      (Except ProcessTrackerError Unit) where
  exec := exec M
  env
    | .expired key, w => some { w with keys := Function.update w.keys key none }
    | .inner e, w => (M.env e w.inner).map fun s => { w with inner := s }
  program := fun call => (lockAcquireRelease settings (ExceptT.mk (M.program call))).run

end Machine
end Mercado.Scheduler.Lock
