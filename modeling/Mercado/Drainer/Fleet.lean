import Mathlib.Logic.Function.Basic
import Mercado.Drainer.Handler
import Mercado.Replies

/-! Drainer processes. The loop of each goes through the shards and spawns a handler for
every stream whose flag it could set; its listener stops it once no handler is active. -/
namespace Mercado.Drainer.Fleet
open Async Redis

structure DrainerSettings where
  streamName : String
  numPartitions : UInt8
  maxReadCount : Nat
  defaultTtl : Nat

/- The keys of a shard. -/

def drainerStream (conf : DrainerSettings) (shardKey : String) : String :=
  "\x7b" ++ shardKey ++ "\x7d_" ++ conf.streamName

def getDrainerStreamName (conf : DrainerSettings) (streamIndex : UInt8) : String :=
  drainerStream conf ("shard_" ++ toString streamIndex)

def getStreamKeyFlag (conf : DrainerSettings) (streamIndex : UInt8) : String :=
  getDrainerStreamName conf streamIndex ++ "_in_use"

def incrementStreamIndex (index totalStreams : UInt8) : UInt8 :=
  if index = totalStreams - 1 then 0 else index + 1

/-- The awaits and the shared memory of the processes, which are told apart by their
`Handler`. `drain` is a command of the drainer of one shard. -/
inductive Command (φ δ : Type) where
  | setNxEx (handler : Nat) (key value : String) (seconds : Nat)
  | del (key : String)
  | drain (streamIndex : UInt8) (c : Drainer.Command φ δ)
  | loadRunning (handler : Nat)
  | storeRunning (handler : Nat) (running : Bool)
  | fetchAdd (handler : Nat)
  | fetchSub (handler : Nat)
  | loadActiveTasks (handler : Nat)
  | spawnTask (handler : Nat) (streamIndex : UInt8)
  | recv (handler : Nat)

abbrev Reply (φ δ : Type) : Command φ δ → Type
  | .setNxEx .. => Except Unit (Option String)
  | .del .. => Except Unit Nat
  | .drain _ c => Drainer.Reply φ δ c
  | .loadRunning .. => Bool
  | .storeRunning .. => Unit
  | .fetchAdd .. => Unit
  | .fetchSub .. => Unit
  | .loadActiveTasks .. => Nat
  | .spawnTask .. => Unit
  | .recv .. => Option Unit

section Functions

variable {φ δ π : Type}

abbrev FleetTask (φ δ : Type) := Task (Command φ δ) (Reply φ δ)

def setKeyIfNotExistsWithExpiry (conf : DrainerSettings) (handler : Nat) (key value : String)
    (seconds : Option Nat) : FleetTask φ δ (Except RedisError SetnxReply) := do
  let reply ← Task.call (R := Reply φ δ)
    (.setNxEx handler key value (seconds.getD conf.defaultTtl))
  return (reply.bind SetnxReply.fromValue).mapError fun _ => .setFailed

def deleteKey (key : String) : FleetTask φ δ (Except RedisError DelReply) := do
  let reply ← Task.call (R := Reply φ δ) (.del key)
  return (reply.bind DelReply.fromValue).mapError fun _ => .deleteFailed

def isStreamAvailable (conf : DrainerSettings) (handler : Nat) (streamIndex : UInt8) :
    FleetTask φ δ Bool := do
  match ← setKeyIfNotExistsWithExpiry conf handler (getStreamKeyFlag conf streamIndex) "true"
      none with
  | .ok resp => return resp = .keySet
  | .error _ => return false

def makeStreamAvailable (streamNameFlag : String) :
    FleetTask φ δ (Except DrainerError Unit) := do
  match ← deleteKey streamNameFlag with
  | .ok .keyDeleted => return .ok ()
  | .ok .keyNotDeleted => return .ok ()
  | .error error => return .error (.redisError error)

def onShard {α : Type} (streamIndex : UInt8) (t : DrainerTask φ δ α) : FleetTask φ δ α :=
  t.interpret fun c => Task.call (R := Reply φ δ) (.drain streamIndex c)

/-- Errors of the drainer are only logged. -/
def drainerHandler (conf : DrainerSettings) (fromHashmap : φ → Except π δ) (handler : Nat)
    (streamIndex : UInt8) : FleetTask φ δ (Except DrainerError Unit) := do
  Task.call (R := Reply φ δ) (.fetchAdd handler)
  let _ ← onShard streamIndex
    (drainer fromHashmap conf.maxReadCount (getDrainerStreamName conf streamIndex))
  let output ← makeStreamAvailable (getStreamKeyFlag conf streamIndex)
  Task.call (R := Reply φ δ) (.fetchSub handler)
  return output

/-- The loop of a process, for as many rounds as it is watched. -/
def spawn (conf : DrainerSettings) (handler : Nat) :
    Nat → UInt8 → FleetTask φ δ (Except DrainerError Unit)
  | 0, _ => return .ok ()
  | rounds + 1, streamIndex => do
    if ← Task.call (R := Reply φ δ) (.loadRunning handler) then
      if ← isStreamAvailable conf handler streamIndex then
        Task.call (R := Reply φ δ) (.spawnTask handler streamIndex)
      spawn conf handler rounds (incrementStreamIndex streamIndex conf.numPartitions)
    else
      return .ok ()

def awaitIdle (handler : Nat) : Nat → FleetTask φ δ Bool
  | 0 => return false
  | polls + 1 => do
    if (← Task.call (R := Reply φ δ) (.loadActiveTasks handler)) = 0 then
      return true
    else
      awaitIdle handler polls

/-- The listener, watched for so many signals and so many looks after each. -/
def shutdownListener (handler polls : Nat) : Nat → FleetTask φ δ (Except DrainerError Unit)
  | 0 => return .ok ()
  | signals + 1 => do
    match ← Task.call (R := Reply φ δ) (.recv handler) with
    | none => return .ok ()
    | some () =>
      if ← awaitIdle handler polls then
        Task.call (R := Reply φ δ) (.storeRunning handler false)
        shutdownListener handler polls signals
      else
        return .ok ()

end Functions

/-- In whose hands a flag is: of the loop that has set it, then of the handler that the
loop has spawned. -/
inductive Holder where
  | loop (task : Nat)
  | handler (task : Nat)
  deriving DecidableEq, Repr

def Holder.task : Holder → Nat
  | .loop task | .handler task => task

structure Held where
  value : String
  setBy : Option Nat
  holder : Option Holder
  deriving DecidableEq, Repr

/-- What the processes share, and the handlers that the runtime has been given and has
begun. The last three only record the run: which tasks are counted in `activeTasks`, which
loops have been granted a stream and not yet spawned its handler, which listeners have
seen no active tasks and not yet stopped the loop. -/
structure World (φ : Type) where
  keys : String → Option Held
  shards : UInt8 → Shard φ
  running : Nat → Bool
  activeTasks : Nat → Nat
  spawned : Nat → Option (Nat × UInt8)
  begun : Nat → Bool
  counted : Nat → List Nat
  granted : Nat → Option Nat
  sawIdle : Nat → Option Nat

structure Choice extends Drainer.Choice where
  task : Nat := 0
  signal : Option Unit := none
  deriving DecidableEq, Repr

namespace World

variable {φ : Type}

def setKey (w : World φ) (key : String) (held : Option Held) : World φ :=
  { w with keys := Function.update w.keys key held }

theorem setKey_found {w : World φ} {key key' : String} {held : Option Held} {x : Held}
    (found : (w.setKey key held).keys key' = some x) :
    key' = key ∧ held = some x ∨ key' ≠ key ∧ w.keys key' = some x := by
  unfold setKey at found
  by_cases same : key' = key
  · subst same
    exact .inl ⟨rfl, by simpa using found⟩
  · exact .inr ⟨same, by simpa [Function.update_of_ne same] using found⟩

def grant (w : World φ) (handler : Nat) (key value : String) (loop : Nat) : World φ :=
  { w.setKey key (some ⟨value, some handler, some (.loop loop)⟩) with
    granted := Function.update w.granted loop (some handler) }

theorem grant_self (w : World φ) (handler : Nat) (key value : String) (loop : Nat) :
    (w.grant handler key value loop).granted loop = some handler := Function.update_self ..

theorem grant_other {w : World φ} {loop q : Nat} (differ : q ≠ loop) (handler : Nat)
    (key value : String) : (w.grant handler key value loop).granted q = w.granted q :=
  Function.update_of_ne differ ..

def handOver (w : World φ) (key : String) (loop task : Nat) : World φ :=
  match w.keys key with
  | some held =>
    if held.holder = some (.loop loop) then
      w.setKey key (some { held with holder := some (.handler task) })
    else w
  | none => w

def spawnTask (w : World φ) (handler : Nat) (streamIndex : UInt8) (key : String)
    (loop task : Nat) : World φ :=
  { w.handOver key loop task with
    spawned := Function.update w.spawned task (some (handler, streamIndex))
    granted := Function.update w.granted loop none }

theorem spawnTask_rest (w : World φ) (handler : Nat) (streamIndex : UInt8) (key : String)
    (loop task : Nat) :
    (w.spawnTask handler streamIndex key loop task).begun = w.begun ∧
      (w.spawnTask handler streamIndex key loop task).sawIdle = w.sawIdle ∧
      (w.spawnTask handler streamIndex key loop task).counted = w.counted ∧
      (w.spawnTask handler streamIndex key loop task).activeTasks = w.activeTasks := by
  unfold spawnTask handOver
  split
  · split <;> exact ⟨rfl, rfl, rfl, rfl⟩
  · exact ⟨rfl, rfl, rfl, rfl⟩

theorem spawnTask_spawned_self (w : World φ) (handler : Nat) (streamIndex : UInt8) (key : String)
    (loop task : Nat) : (w.spawnTask handler streamIndex key loop task).spawned task =
      some (handler, streamIndex) := Function.update_self ..

theorem spawnTask_spawned_other (w : World φ) (handler : Nat) (streamIndex : UInt8) (key : String)
    (loop : Nat) {task q : Nat} (differ : q ≠ task) :
    (w.spawnTask handler streamIndex key loop task).spawned q = w.spawned q :=
  Function.update_of_ne differ ..

theorem spawnTask_granted_self (w : World φ) (handler : Nat) (streamIndex : UInt8) (key : String)
    (loop task : Nat) : (w.spawnTask handler streamIndex key loop task).granted loop = none :=
  Function.update_self ..

theorem spawnTask_granted_other (w : World φ) (handler : Nat) (streamIndex : UInt8) (key : String)
    {loop q : Nat} (task : Nat) (differ : q ≠ loop) :
    (w.spawnTask handler streamIndex key loop task).granted q = w.granted q :=
  Function.update_of_ne differ ..

def beginTask (w : World φ) (handler task : Nat) : World φ :=
  { w with
    activeTasks := Function.update w.activeTasks handler (w.activeTasks handler + 1)
    counted := Function.update w.counted handler (task :: w.counted handler)
    begun := Function.update w.begun task true }

def endTask (w : World φ) (handler task : Nat) : World φ :=
  { w with
    activeTasks := Function.update w.activeTasks handler (w.activeTasks handler - 1)
    counted := Function.update w.counted handler ((w.counted handler).erase task) }

/-- At the start the flags may have been left behind by earlier processes. -/
def start (keys : String → Option String) (shards : UInt8 → Shard φ) : World φ where
  keys := fun key => (keys key).map fun value => ⟨value, none, none⟩
  shards := shards
  running := fun _ => true
  activeTasks := fun _ => 0
  spawned := fun _ => none
  begun := fun _ => false
  counted := fun _ => []
  granted := fun _ => none
  sawIdle := fun _ => none

end World

variable {φ δ π : Type}

/-- SET does not take a time to live of zero. -/
def exec (conf : DrainerSettings) (task : Nat) :
    (c : Command φ δ) → Choice → World φ → Reply φ δ c × World φ
  | .setNxEx handler key value seconds, o, w =>
    if seconds = 0 then (.error (), w)
    else if (w.keys key).isSome then o.redis.through () w (none, w)
    else
      match o.redis with
      | .answered => (.ok (some "OK"), w.grant handler key value task)
      | .lost => (.error (), w)
      | .unanswered => (.error (), w.setKey key (some ⟨value, some handler, none⟩))
  | .del key, o, w =>
    o.redis.through () w (if (w.keys key).isSome then 1 else 0, w.setKey key none)
  | .drain streamIndex c, o, w =>
    let x := Drainer.exec task c o.toChoice (w.shards streamIndex)
    (x.1, { w with shards := Function.update w.shards streamIndex x.2 })
  | .loadRunning handler, _, w => (w.running handler, w)
  | .storeRunning handler running, _, w =>
    ((), { w with
      running := Function.update w.running handler running
      sawIdle := Function.update w.sawIdle task none })
  | .fetchAdd handler, _, w => ((), w.beginTask handler task)
  | .fetchSub handler, _, w => ((), w.endTask handler task)
  | .loadActiveTasks handler, _, w =>
    (w.activeTasks handler,
      if w.activeTasks handler = 0 then
        { w with sawIdle := Function.update w.sawIdle task (some handler) }
      else w)
  | .spawnTask handler streamIndex, o, w =>
    ((), w.spawnTask handler streamIndex (getStreamKeyFlag conf streamIndex) task o.task)
  | .recv _, o, w => (o.signal, w)

/-- Flags expire, tasks that have not begun are dropped when their process ends, and
clients append to the streams. -/
inductive Env (φ : Type) where
  | expired (key : String)
  | dropped (task : Nat)
  | appended (streamIndex : UInt8) (a : Append φ)

def env : Env φ → World φ → Option (World φ)
  | .expired key, w => some (w.setKey key none)
  | .dropped task, w =>
    if w.begun task then none
    else some { w with spawned := Function.update w.spawned task none }
  | .appended streamIndex a, w => (append a (w.shards streamIndex)).map fun shard =>
      { w with shards := Function.update w.shards streamIndex shard }

inductive Call where
  | spawn (handler rounds : Nat)
  | drainerHandler (handler : Nat) (streamIndex : UInt8)
  | shutdownListener (handler polls signals : Nat)
  deriving DecidableEq, Repr

def machine (conf : DrainerSettings) (fromHashmap : φ → Except π δ) :
    Machine (Command φ δ) (Reply φ δ) (World φ) Choice (Env φ) Call
      (Except DrainerError Unit) where
  exec := exec conf
  env := env
  program
    | .spawn handler rounds => spawn conf handler rounds 0
    | .drainerHandler handler streamIndex => drainerHandler conf fromHashmap handler streamIndex
    | .shutdownListener handler polls signals => shutdownListener handler polls signals

abbrev FleetConfig (φ δ : Type) :=
  Config (Command φ δ) (Reply φ δ) (World φ) Call (Except DrainerError Unit)

def fleetStart (keys : String → Option String) (shards : UInt8 → Shard φ) : FleetConfig φ δ :=
  .initial (.start keys shards)

/-- The runtime begins the handlers that have been spawned, and gives a new number to each
task. A task that has not begun does not panic. -/
def scheduled (c : FleetConfig φ δ) : Action Choice (Env φ) Call → Prop
  | .spawn p (.drainerHandler handler streamIndex) =>
    c.world.spawned p = some (handler, streamIndex)
  | .spawn p _ => c.world.spawned p = none
  | .step p o => ∀ call handler streamIndex k,
    c.procs p = .live call (.await (.spawnTask handler streamIndex) k) →
      c.procs o.task = .idle ∧ c.world.spawned o.task = none
  | .crash p => ∀ handler streamIndex t,
    c.procs p = .live (.drainerHandler handler streamIndex) t → c.world.begun p = true
  | .env (.dropped task) => c.procs task = .idle
  | .env _ => True

/- What the commands on flags can do. -/

theorem setNxEx_cases (conf : DrainerSettings) (p handler seconds : Nat) (key value : String)
    (o : Choice) (w : World φ) :
    (exec conf p (.setNxEx handler key value seconds : Command φ δ) o w).2 = w ∧
        (∀ text, (exec conf p (.setNxEx handler key value seconds : Command φ δ) o w).1 ≠
          .ok (some text)) ∨
      w.keys key = none ∧ o.redis = .answered ∧
        exec conf p (.setNxEx handler key value seconds : Command φ δ) o w =
          (.ok (some "OK"), w.grant handler key value p) ∨
      w.keys key = none ∧ o.redis = .unanswered ∧
        exec conf p (.setNxEx handler key value seconds : Command φ δ) o w =
          (.error (), w.setKey key (some ⟨value, some handler, none⟩)) := by
  by_cases zero : seconds = 0
  · exact .inl ⟨by simp [exec, zero], by simp [exec, zero]⟩
  · cases free : w.keys key with
    | some held =>
      cases sent : o.redis <;>
        exact .inl ⟨by simp [exec, zero, free, sent, Delivery.through],
          by simp [exec, zero, free, sent, Delivery.through]⟩
    | none =>
      cases sent : o.redis with
      | answered => exact .inr (.inl ⟨rfl, rfl, by simp [exec, zero, free, sent]⟩)
      | lost =>
        exact .inl ⟨by simp [exec, zero, free, sent], by simp [exec, zero, free, sent]⟩
      | unanswered => exact .inr (.inr ⟨rfl, rfl, by simp [exec, zero, free, sent]⟩)

theorem del_cases (conf : DrainerSettings) (p : Nat) (key : String) (o : Choice) (w : World φ) :
    (exec conf p (.del key : Command φ δ) o w).2 = w ∧ o.redis = .lost ∨
      (exec conf p (.del key : Command φ δ) o w).2 = w.setKey key none := by
  cases sent : o.redis with
  | lost => exact .inl ⟨by simp [exec, sent, Delivery.through], rfl⟩
  | answered | unanswered => exact .inr (by simp [exec, sent, Delivery.through])

theorem handOver_cases (w : World φ) (key : String) (loop task : Nat) :
    w.handOver key loop task = w ∧
        (∀ held, w.keys key = some held → held.holder ≠ some (.loop loop)) ∨
      ∃ held, w.keys key = some held ∧ held.holder = some (.loop loop) ∧
        w.handOver key loop task =
          w.setKey key (some { held with holder := some (.handler task) }) := by
  unfold World.handOver
  split
  · rename_i held found
    split
    · rename_i mine
      exact .inr ⟨held, found, mine, rfl⟩
    · rename_i other
      refine .inl ⟨rfl, fun held' found' => ?_⟩
      cases found.symm.trans found'
      exact other
  · rename_i absent
    refine .inl ⟨rfl, fun held found => ?_⟩
    cases absent.symm.trans found

theorem spawnTask_keys {w : World φ} {handler : Nat} {streamIndex : UInt8} {key key' : String}
    {loop task : Nat} {held : Held}
    (found : (w.spawnTask handler streamIndex key loop task).keys key' = some held) :
    w.keys key' = some held ∧ (held.holder = some (.loop loop) → key' ≠ key) ∨
      key' = key ∧ ∃ old, w.keys key = some old ∧ old.holder = some (.loop loop) ∧
        held = { old with holder := some (.handler task) } := by
  have found' : (w.handOver key loop task).keys key' = some held := found
  rcases handOver_cases w key loop task with ⟨same, nobody⟩ | ⟨old, atKey, mine, same⟩
  · rw [same] at found'
    refine .inl ⟨found', ?_⟩
    rintro own rfl
    exact nobody held found' own
  · rw [same] at found'
    rcases World.setKey_found found' with ⟨here, new⟩ | ⟨differ, before⟩
    · exact .inr ⟨here, old, atKey, mine, (Option.some.inj new).symm⟩
    · exact .inl ⟨before, fun _ => differ⟩

def Unrecorded (w : World φ) (p : Nat) : Prop :=
  w.begun p = false ∧ w.granted p = none ∧ w.sawIdle p = none

theorem exec_records_other {conf : DrainerSettings} {p q : Nat} (differ : q ≠ p)
    (cmd : Command φ δ) (o : Choice) (w : World φ) :
    (exec conf p cmd o w).2.begun q = w.begun q ∧
      (exec conf p cmd o w).2.granted q = w.granted q ∧
      (exec conf p cmd o w).2.sawIdle q = w.sawIdle q := by
  have elsewhere : ∀ {β : Type} (f : Nat → β) (x : β), Function.update f p x q = f q :=
    fun f x => Function.update_of_ne differ ..
  cases cmd with
  | setNxEx handler key value seconds =>
    rcases setNxEx_cases (δ := δ) conf p handler seconds key value o w with
      ⟨same, _⟩ | ⟨_, _, same⟩ | ⟨_, _, same⟩ <;> rw [same]
    · exact ⟨rfl, rfl, rfl⟩
    · exact ⟨rfl, elsewhere .., rfl⟩
    · exact ⟨rfl, rfl, rfl⟩
  | del key =>
    rcases del_cases (δ := δ) conf p key o w with ⟨same, _⟩ | same <;> rw [same] <;>
      exact ⟨rfl, rfl, rfl⟩
  | loadActiveTasks handler =>
    by_cases idle : w.activeTasks handler = 0 <;> simp [exec, idle, elsewhere]
  | spawnTask handler streamIndex =>
    obtain ⟨begun, sawIdle, _⟩ := w.spawnTask_rest handler streamIndex
      (getStreamKeyFlag conf streamIndex) p o.task
    exact ⟨congrFun begun q, elsewhere .., congrFun sawIdle q⟩
  | drain | loadRunning | recv | fetchSub => exact ⟨rfl, rfl, rfl⟩
  | storeRunning => exact ⟨rfl, rfl, elsewhere ..⟩
  | fetchAdd => exact ⟨elsewhere .., rfl, rfl⟩

theorem env_records {e : Env φ} {w w' : World φ} (moved : env e w = some w') :
    w'.begun = w.begun ∧ w'.granted = w.granted ∧ w'.sawIdle = w.sawIdle ∧
      w'.counted = w.counted := by
  cases e with
  | expired key =>
    cases moved
    exact ⟨rfl, rfl, rfl, rfl⟩
  | dropped task =>
    simp only [env] at moved
    split at moved
    · cases moved
    · cases moved
      exact ⟨rfl, rfl, rfl, rfl⟩
  | appended streamIndex a =>
    simp only [env, Option.map_eq_some_iff] at moved
    obtain ⟨shard, _, rfl⟩ := moved
    exact ⟨rfl, rfl, rfl, rfl⟩

theorem idle_unrecorded {conf : DrainerSettings} {fromHashmap : φ → Except π δ}
    {ok : FleetConfig φ δ → Action Choice (Env φ) Call → Prop} {first c : FleetConfig φ δ}
    (reached : Machine.Reach (machine conf fromHashmap) ok first c)
    (initial : ∀ p, Unrecorded first.world p) (p : Nat) (idle : c.procs p = .idle) :
    Unrecorded c.world p := by
  induction reached with
  | start => exact initial p
  | next act _ _ hs before =>
    obtain ⟨other, wasIdle⟩ := Machine.step_idle hs idle
    have kept := before wasIdle
    rcases Machine.step_world hs with same | ⟨q, o, a, cmd, k, rfl, _, world⟩ | ⟨e, _, moved⟩
    · rw [same]
      exact kept
    · have differ : p ≠ q := fun same => other (same ▸ rfl)
      obtain ⟨begun, granted, sawIdle⟩ := exec_records_other differ cmd o _
      rw [world]
      exact ⟨begun.trans kept.1, granted.trans kept.2.1, sawIdle.trans kept.2.2⟩
    · obtain ⟨begun, granted, sawIdle, _⟩ := env_records moved
      exact ⟨begun ▸ kept.1, granted ▸ kept.2.1, sawIdle ▸ kept.2.2⟩

/- Default settings, and streams whose entries all hold the same query. -/

def sampleSettings : DrainerSettings where
  streamName := "DRAINER_STREAM"
  numPartitions := 64
  maxReadCount := 100
  defaultTtl := 300

abbrev sampleFleet :
    Machine (Command Unit Unit) (Reply Unit Unit) (World Unit) Choice (Env Unit) Call
      (Except DrainerError Unit) :=
  machine sampleSettings fun _ => (.ok () : Except Unit Unit)

def emptyShards : UInt8 → Shard Unit := fun _ => .empty

end Mercado.Drainer.Fleet
