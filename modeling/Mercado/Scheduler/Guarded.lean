import Mercado.Async.Simulation
import Mercado.Scheduler.Exclusion
import Mercado.Scheduler.Starts

/-! Schedulers with their lock. A producer run of them does nothing but what one without a lock
does while it holds it, and so the lock keeps the producer runs apart. -/
namespace Mercado.Scheduler.Lock
open Async Redis

variable {C : Type} {R : C → Type} {S O E A α β : Type}

def Command.own : Command C → Bool
  | .callback _ => false
  | _ => true

/-- What a call may still do that has not begun with the task inside. -/
inductive Enters (t : Task C R α) : LockTask R β → Prop
  | never (b : β) : Enters t (.done b)
  | later {c : Command C} {k : Reply R c → LockTask R β} (own : c.own = true)
    (rest : ∀ r, Enters t (k r)) : Enters t (.await c k)
  | now {rest : α → LockTask R β} (quiet : ∀ a, (rest a).every fun c => c.own = true) :
    Enters t ((inCallback t).bind rest)

/-- A process with the lock, and the process that does what is inside. -/
inductive Follows (program : A → Task C R α) :
    Proc (Command C) (Reply R) A β → Proc C R A α → Prop
  | idle : Follows program .idle .idle
  | outside {a : A} {t : LockTask R β} (enters : Enters (program a) t) :
    Follows program (.live a t) .idle
  | inside {a : A} (u : Task C R α) {rest : α → LockTask R β}
    (quiet : ∀ b, (rest b).every fun c => c.own = true) :
    Follows program (.live a ((inCallback u).bind rest)) (.live a u)
  | after {a : A} {t : LockTask R β} {b : α} (quiet : t.every fun c => c.own = true) :
    Follows program (.live a t) (.live a (.done b))
  | crashed {a : A} {q : Proc C R A α} (still : ∀ b cmd k, q ≠ .live b (.await cmd k)) :
    Follows program (.crashed a) q

theorem Enters.of_own {t : Task C R α} {u : LockTask R β} (own : u.every fun c => c.own = true) :
    Enters t u := by
  induction u with
  | done b => exact .never b
  | await c k ih => exact .later own.1 fun r => ih r (own.2 r)

/-- The first command of the task inside is the first one of the call that is not the lock's. -/
theorem Enters.callback {t : Task C R α} {x : C} {k : R x → LockTask R β}
    (enters : Enters t (.await (.callback x) k)) :
    ∃ (next : R x → Task C R α) (rest : α → LockTask R β), t = .await x next ∧
      (k = fun r => (inCallback (next r)).bind rest) ∧
      ∀ a, (rest a).every fun c => c.own = true := by
  generalize same : (Task.await (.callback x) k : LockTask R β) = u at enters
  cases enters with
  | never b => cases same
  | later own rest =>
    cases same
    cases own
  | @now rest quiet =>
    cases t with
    | done a =>
      have own := quiet a
      rw [show (inCallback (.done a)).bind rest = rest a from rfl] at same
      rw [← same] at own
      cases own.1
    | await y next =>
      cases same
      exact ⟨next, rest, rfl, rfl, quiet⟩

theorem Enters.own {t : Task C R α} {c : Command C} {k : Reply R c → LockTask R β}
    (own : c.own = true) (enters : Enters t (.await c k)) (r : Reply R c) : Enters t (k r) := by
  generalize same : (Task.await c k : LockTask R β) = u at enters
  cases enters with
  | never b => cases same
  | later _ rest =>
    cases same
    exact rest r
  | @now rest quiet =>
    cases t with
    | done a =>
      have quiet := quiet a
      rw [show rest a = .await c k from same.symm] at quiet
      exact .of_own (quiet.2 r)
    | await y next =>
      cases same
      cases own

section Follows

variable {program : A → Task C R α} {a : A} {q : Proc C R A α}

theorem Follows.own {c : Command C} {k : Reply R c → LockTask R β} (own : c.own = true)
    (follows : Follows program (.live a (.await c k)) q) (r : Reply R c) :
    Follows program (.live a (k r)) q := by
  generalize same : (Proc.live a (Task.await c k) : Proc (Command C) (Reply R) A β) = p at follows
  cases follows with
  | idle | crashed => cases same
  | outside enters =>
    cases same
    exact .outside (enters.own own r)
  | after quiet =>
    cases same
    exact .after (quiet.2 r)
  | @inside b u rest quiet =>
    cases u with
    | await y next =>
      cases same
      cases own
    | done r' =>
      obtain ⟨rfl, ended⟩ := Proc.live.inj same
      have quiet := quiet r'
      rw [← show Task.await c k = rest r' from ended] at quiet
      exact .after (quiet.2 r)

theorem Follows.callback {x : C} {k : R x → LockTask R β}
    (follows : Follows program (.live a (.await (.callback x) k)) q) :
    ∃ next, (q = .idle ∧ program a = .await x next ∨ q = .live a (.await x next)) ∧
      ∀ r, Follows program (.live a (k r)) (.live a (next r)) := by
  generalize same : (Proc.live a (Task.await (.callback x) k) : Proc (Command C) (Reply R) A β) = p
    at follows
  cases follows with
  | idle | crashed => cases same
  | outside enters =>
    cases same
    obtain ⟨next, rest, first, rfl, quiet⟩ := enters.callback
    exact ⟨next, .inl ⟨rfl, first⟩, fun r => .inside (next r) quiet⟩
  | after quiet =>
    cases same
    cases quiet.1
  | @inside b u rest quiet =>
    cases u with
    | await y next =>
      cases same
      exact ⟨next, .inr rfl, fun r => .inside (next r) quiet⟩
    | done r' =>
      obtain ⟨rfl, ended⟩ := Proc.live.inj same
      have quiet := quiet r'
      rw [← show Task.await (Command.callback x) k = rest r' from ended] at quiet
      cases quiet.1

theorem Follows.awaits {p : Proc (Command C) (Reply R) A β} {x : C} {next : R x → Task C R α}
    (follows : Follows program p (.live a (.await x next))) :
    ∃ k, p = .live a (.await (.callback x) k) := by
  cases follows with
  | inside u quiet => exact ⟨_, rfl⟩
  | crashed still => exact absurd rfl (still a x next)

end Follows

section Machine

def commands (M : Machine C R S O E A α) :
    Machine C R S O E A (Except ProcessTrackerError Unit) :=
  ⟨M.exec, M.env, fun _ => .done (.ok ())⟩

def guarded (M : Machine C R S O E A α) (program : A → LockTask R β) :
    Machine (Command C) (Reply R) (World S) (Choice O) (Env E) A β where
  exec := exec (commands M)
  env
    | .expired key, w => some { w with keys := Function.update w.keys key none }
    | .inner e, w => (M.env e w.inner).map fun s => { w with inner := s }
  program := program

structure Related (program : A → Task C R α) (c : Config (Command C) (Reply R) (World S) A β)
    (c' : Config C R S A α) : Prop where
  world : c'.world = c.world.inner
  procs : ∀ p, Follows program (c.procs p) (c'.procs p)

variable {M : Machine C R S O E A α} {program : A → LockTask R β}

theorem exec_own {p : Nat} {c : Command C} (own : c.own = true) (o : Choice O) (w : World S) :
    (exec (commands M) p c o w).2.inner = w.inner := by
  have through : ∀ {γ : Type} (x : γ × World S), x.2.inner = w.inner →
      (o.redis.through () w x).2.inner = w.inner := by
    intro γ x same
    rcases o.redis.through_cases () w x with h | h | h <;> rw [h] <;> exact same
  cases c with
  | isRedisAvailable => rfl
  | setNx key value =>
    refine through _ ?_
    split <;> rfl
  | expire key seconds =>
    refine through _ ?_
    unfold World.expire
    split <;> rfl
  | del key => exact through _ rfl
  | callback x => cases own

variable {ok : Config (Command C) (Reply R) (World S) A β → Action (Choice O) (Env E) A → Prop}
  {ok' : Config C R S A α → Action O E A → Prop} {keys : String → Option String} {s : S}

variable {c d : Config (Command C) (Reply R) (World S) A β} {c' d' : Config C R S A α} {p : Nat}

theorem Related.move (related : Related M.program c c') (p : Nat) (world : d'.world = d.world.inner)
    (here : Follows M.program (d.procs p) (d'.procs p))
    (there : ∀ q, q ≠ p → d.procs q = c.procs q ∧ d'.procs q = c'.procs q) :
    Related M.program d d' where
  world := world
  procs := by
    intro q
    by_cases same : q = p
    · exact same ▸ here
    · rw [(there q same).1, (there q same).2]
      exact related.procs q

theorem Related.spawn {a : A} (related : Related M.program c c') (idle : c.procs p = .idle)
    (enters : Enters (M.program a) (program a)) :
    Related M.program (c.setProc p (.live a (program a))) c' := by
  have was := related.procs p
  rw [idle] at was
  have other : c'.procs p = .idle := by
    cases h : c'.procs p with
    | idle => rfl
    | live | crashed =>
      rw [h] at was
      cases was
  refine related.move p related.world ?_ fun q differ => ⟨Config.setProc_other differ _, rfl⟩
  rw [Config.setProc_self, other]
  exact .outside enters

theorem Related.own {a : A} {cmd : Command C} {k : Reply R cmd → LockTask R β}
    (related : Related M.program c c') (live : c.procs p = .live a (.await cmd k))
    (own : cmd.own = true) (o : Choice O) :
    Related M.program { c.setProc p (.live a (k (exec (commands M) p cmd o c.world).1)) with
      world := (exec (commands M) p cmd o c.world).2 } c' := by
  refine related.move p ?_ ?_ fun q differ => ⟨Config.setProc_other differ _, rfl⟩
  · rw [related.world]
    exact (exec_own own o c.world).symm
  · have was := related.procs p
    rw [live] at was
    simp only [Config.setProc_self]
    exact was.own own _

theorem Related.begin {a : A} {x : C} {k : R x → LockTask R β} (related : Related M.program c c')
    (live : c.procs p = .live a (.await (.callback x) k))
    (spawn : c'.procs p = .idle → ok' c' (.spawn p a)) :
    ∃ next m, Machine.Reach M ok' c' m ∧ m.procs p = .live a (.await x next) ∧
      m.world = c'.world ∧ (∀ q, q ≠ p → m.procs q = c'.procs q) ∧
      ∀ r, Follows M.program (.live a (k r)) (.live a (next r)) := by
  have was := related.procs p
  rw [live] at was
  obtain ⟨next, ⟨idle, first⟩ | there, follows⟩ := was.callback
  · refine ⟨next, c'.setProc p (.live a (M.program a)),
      .next (.spawn p a) .start (spawn idle) (by simp [Machine.step, idle]), ?_, rfl,
      fun q differ => Config.setProc_other differ _, follows⟩
    rw [Config.setProc_self, first]
  · exact ⟨next, c', .start, there, rfl, fun _ _ => rfl, follows⟩

theorem Related.callback {a : A} {x : C} {k : R x → LockTask R β}
    (related : Related M.program c c') (live : c.procs p = .live a (.await (.callback x) k))
    (spawn : c'.procs p = .idle → ok' c' (.spawn p a))
    (moves : ∀ c' act, (∀ p a, act ≠ .spawn p a) → ok' c' act) (o : Choice O) :
    ∃ d', Machine.Reach M ok' c' d' ∧ Related M.program
      { c.setProc p (.live a (k (M.exec p x o.inner c.world.inner).1)) with
        world := { c.world with inner := (M.exec p x o.inner c.world.inner).2 } } d' := by
  obtain ⟨next, m, started, there, same, others, follows⟩ := related.begin live spawn
  refine ⟨{ m.setProc p (.live a (next (M.exec p x o.inner m.world).1)) with
      world := (M.exec p x o.inner m.world).2 },
    .next (.step p o.inner) started (moves _ _ nofun) (by simp [Machine.step, there]), ?_⟩
  refine related.move p ?_ ?_ fun q differ =>
    ⟨Config.setProc_other differ _, (Config.setProc_other differ _).trans (others q differ)⟩
  · rw [same, related.world]
  · simp only [Config.setProc_self, same, related.world]
    exact follows _

theorem Related.crash {a : A} (related : Related M.program c c')
    (moves : ∀ c' act, (∀ p a, act ≠ .spawn p a) → ok' c' act) :
    ∃ d', Machine.Reach M ok' c' d' ∧ Related M.program (c.setProc p (.crashed a)) d' := by
  by_cases awaits : ∃ b x next, c'.procs p = .live b (.await x next)
  · obtain ⟨b, x, next, there⟩ := awaits
    refine ⟨c'.setProc p (.crashed b),
      .next (.crash p) .start (moves _ _ nofun) (by simp [Machine.step, there]),
      related.move p related.world ?_ fun q differ =>
        ⟨Config.setProc_other differ _, Config.setProc_other differ _⟩⟩
    simp only [Config.setProc_self]
    exact .crashed (by rintro _ _ _ ⟨⟩)
  · refine ⟨c', .start,
      related.move p related.world ?_ fun q differ => ⟨Config.setProc_other differ _, rfl⟩⟩
    rw [Config.setProc_self]
    exact .crashed fun b x next there => awaits ⟨b, x, next, there⟩

theorem Related.env {e : Env E} (related : Related M.program c c')
    (moved : (guarded M program).env e c.world = some d.world) (procs : d.procs = c.procs)
    (moves : ∀ c' act, (∀ p a, act ≠ .spawn p a) → ok' c' act) :
    ∃ d', Machine.Reach M ok' c' d' ∧ Related M.program d d' := by
  cases e with
  | expired key =>
    refine ⟨c', .start, ?_, procs ▸ related.procs⟩
    rw [related.world, ← Option.some.inj moved]
  | inner e =>
    obtain ⟨t, inner, world⟩ := Option.map_eq_some_iff.mp moved
    refine ⟨{ c' with world := t }, .next (.env e) .start (moves _ _ nofun) ?_, ?_,
      procs ▸ related.procs⟩
    · simp [Machine.step, related.world, inner]
    · rw [← world]

/-- Without the lock a call begins with its first command, and the commands of the lock are
nothing. -/
def following (enters : ∀ a, Enters (M.program a) (program a))
    (spawns : ∀ {c c' p a x k}, Machine.Reach (guarded M program) ok (.initial (.start keys s)) c →
      Related M.program c c' → c.procs p = .live a (.await (.callback x) k) →
      c'.procs p = .idle → ok' c' (.spawn p a))
    (moves : ∀ c' act, (∀ p a, act ≠ .spawn p a) → ok' c' act) :
    Simulation (guarded M program) ok (.initial (.start keys s)) M ok' (.initial s) where
  rel := Related M.program
  starts := ⟨rfl, fun _ => .idle⟩
  steps := by
    intro c d c' act reached reached' related met hs
    cases act with
    | spawn p a =>
      obtain ⟨idle, rfl⟩ := Machine.step_spawn hs
      exact ⟨c', .start, related.spawn idle (enters a)⟩
    | step p o =>
      obtain ⟨ps, w⟩ := d
      obtain ⟨a, cmd, k, live, rfl, rfl⟩ := Machine.step_step hs
      cases cmd with
      | callback x => exact related.callback live (spawns reached related live) moves o
      | _ => exact ⟨c', .start, related.own live rfl o⟩
    | crash p =>
      obtain ⟨a, cmd, k, live, rfl⟩ := Machine.step_crash hs
      exact related.crash moves
    | env e =>
      obtain ⟨moved, procs⟩ := Machine.step_env hs
      exact related.env moved procs moves

end Machine

/- The functions around a callback. -/

theorem inCallback_bind (t : Task C R α) (f : α → Task C R β) :
    inCallback (t.bind f) = (inCallback t).bind fun a => inCallback (f a) := by
  induction t with
  | done a => rfl
  | await c k ih => exact congrArg (Task.await (Command.callback c)) (funext fun r => ih r)

theorem Enters.bind {γ : Type} {t : Task C R α} {u : LockTask R γ} {f : γ → LockTask R β}
    (own : u.every fun c => c.own = true) (rest : ∀ r, Enters t (f r)) : Enters t (u.bind f) := by
  induction u with
  | done r => exact rest r
  | await c k ih => exact .later own.1 fun r => ih r (own.2 r)

section Every

variable {A : Command C → Prop}

theorem inCallback_every (inside : ∀ x, A (.callback x)) (t : Task C R α) :
    (inCallback t).every A := by
  induction t with
  | done a => trivial
  | await c k ih => exact ⟨inside c, ih⟩

theorem getRedisConn_every (connection : A .isRedisAvailable) :
    (getRedisConn : ExceptT RedisError (LockTask R) Unit).run.every A := by
  refine Task.every_tryBind (Task.every_lift (Task.every_call connection)) fun available => ?_
  cases available <;> trivial

theorem deleteKey_every {key : String} (del : A (.del key)) :
    (deleteKey key : LockTask R (Except Unit DelReply)).every A :=
  Task.every_bind (Task.every_call del) fun _ => trivial

theorem acquirePtLock_every {key value : String} {ttl : Int} (connection : A .isRedisAvailable)
    (set : A (.setNx key value)) (expire : A (.expire key ttl)) (del : A (.del key)) :
    (acquirePtLock key value ttl : ExceptT RedisError (LockTask R) Bool).run.every A := by
  refine Task.every_tryBind (getRedisConn_every connection) fun _ => ?_
  refine Task.every_tryBind (Task.every_lift
    (Task.every_bind (Task.every_call set) fun _ => trivial)) fun reply => ?_
  match reply with
  | .error () | .ok .keyNotSet => trivial
  | .ok .keySet =>
    refine Task.every_tryBind (Task.every_lift (Task.every_call expire)) fun expiry => ?_
    cases expiry with
    | ok => trivial
    | error => exact Task.every_tryBind (Task.every_lift (deleteKey_every del)) fun _ => trivial

theorem releasePtLock_every {key : String} (connection : A .isRedisAvailable) (del : A (.del key)) :
    (releasePtLock key : ExceptT RedisError (LockTask R) Bool).run.every A := by
  refine Task.every_tryBind (getRedisConn_every connection) fun _ => ?_
  refine Task.every_tryBind (Task.every_lift (deleteKey_every del)) fun reply => ?_
  cases reply <;> trivial

theorem lockAcquireRelease_every {settings : SchedulerSettings}
    (callback : ExceptT ProcessTrackerError (Task C R) Unit) (connection : A .isRedisAvailable)
    (set : A (.setNx settings.producer.lockKey "LOCKED"))
    (expire : A (.expire settings.producer.lockKey settings.producer.lockTtl))
    (del : A (.del settings.producer.lockKey)) (inside : ∀ x, A (.callback x)) :
    (lockAcquireRelease settings callback).run.every A := by
  refine Task.every_tryBind (Task.every_changeContext
    (acquirePtLock_every connection set expire del)) fun acquired => ?_
  cases acquired with
  | false => trivial
  | true =>
    refine Task.every_tryBind (Task.every_lift (inCallback_every inside _)) fun _ => ?_
    exact Task.every_tryBind (Task.every_changeContext (releasePtLock_every connection del))
      fun _ => trivial

end Every

end Mercado.Scheduler.Lock

namespace Mercado.Scheduler
open Async Redis Lock

/-- A call under the lock begins with its callback or never does. -/
theorem lockAcquireRelease_enters (settings : SchedulerSettings) (callback : Flow Unit) :
    Enters (callback.run.bind (.done ∘ Result.flow))
      ((lockAcquireRelease settings callback).run.bind (.done ∘ Result.flow)) := by
  rw [lockAcquireRelease, Task.run_bind, Task.bind_assoc]
  refine .bind (Task.every_changeContext (acquirePtLock_every rfl rfl rfl rfl)) fun acquired => ?_
  match acquired with
  | .error e => exact .never _
  | .ok false => exact .never _
  | .ok true =>
    let rest : Result → LockTask Reply Result
      | .flow result =>
        (Task.changeContext (.eRedisError .redisConnectionError)
          (releasePtLock settings.producer.lockKey).run >>= fun _ =>
            (.mk (.done result) : ExceptT ProcessTrackerError (LockTask Reply) Unit)).run.bind
              (.done ∘ Result.flow)
      | r => .done r
    have quiet : ∀ r, (rest r).every fun c => c.own = true := by
      intro r
      cases r with
      | flow result =>
        exact Task.every_bind (Task.every_tryBind
          (Task.every_changeContext (releasePtLock_every rfl rfl)) fun _ => trivial)
            fun _ => trivial
      | stored | row => trivial
    have whole := Enters.now (t := callback.run.bind (.done ∘ Result.flow)) quiet
    rw [inCallback_bind, Task.bind_assoc] at whole
    simp only [if_true]
    rw [Task.run_bind, Task.bind_assoc]
    change Enters _ (((inCallback callback.run).bind _).bind _)
    rw [Task.bind_assoc]
    exact whole

/-- `run_producer_flow` takes the lock; the other calls do without it. -/
def lockedProgram (serde : Serde) (conf : SchedulerSettings) : Call → LockTask Reply Result
  | .producerFlow =>
    (lockAcquireRelease conf (producerFlow serde conf)).run.bind (.done ∘ .flow)
  | a => inCallback (a.program serde conf)

def lockedMachine (serde : Serde) (conf : SchedulerSettings) :
    Machine (Lock.Command Command) (Lock.Reply Reply) (Lock.World World) (Lock.Choice Choice)
      (Lock.Env Empty) Call Result :=
  guarded (machine serde conf) (lockedProgram serde conf)

theorem lockedProgram_enters (serde : Serde) (conf : SchedulerSettings) (a : Call) :
    Enters (a.program serde conf) (lockedProgram serde conf a) := by
  have free : ∀ t : SchedulerTask Result, Enters t (inCallback t : LockTask Reply Result) := by
    intro t
    have now : Enters t ((inCallback t).bind .done) := .now fun _ => trivial
    rwa [Task.bind_done_right] at now
  cases a with
  | producerFlow => exact lockAcquireRelease_enters conf _
  | _ => exact free _

abbrev LockedConfig :=
  Config (Lock.Command Command) (Lock.Reply Reply) (Lock.World World) Call Result

/-- The lock lives as long as the producer run that has it, and no append but theirs. -/
def lockLives (conf : SchedulerSettings) (c : LockedConfig)
    (act : Action (Lock.Choice Choice) (Lock.Env Empty) Call) : Prop :=
  (∀ key, act = .env (.expired key) → key = conf.producer.lockKey → ∀ p call cmd k,
    c.procs p = .live call (.await cmd k) → ¬ Owns p conf.producer.lockKey c.world) ∧
  ∀ p way tasks, act ≠ .spawn p (.divideAndAppendTasks way tasks)

def Living (cmd : Lock.Command Command) : Prop :=
  ∀ key seconds, cmd = .expire key seconds → 0 < seconds

def lockHeld (conf : SchedulerSettings) (c : LockedConfig)
    (act : Action (Lock.Choice Choice) (Lock.Env Empty) Call) : Prop :=
  lockLives conf c act ∧
    ∀ p o, act = .step p o → ∀ call cmd k, c.procs p = .live call (.await cmd k) → Living cmd

section Locked

variable {serde : Serde} {conf : SchedulerSettings} {keys : String → Option String} {table : Table}
  {c : LockedConfig}

def lockedSetting (serde : Serde) (conf : SchedulerSettings) (p : Nat) (a : Call) :
    Setting (Lock.Command Command) (Lock.Reply Reply) (Lock.World World) (Lock.Choice Choice) where
  exec := (lockedMachine serde conf).exec p
  inv := fun _ => True
  rely := fun w w' => Owns p conf.producer.lockKey w → Owns p conf.producer.lockKey w'
  guar := fun cmd w w' =>
    (a = .producerFlow → permitted conf.producer.lockKey p w cmd) ∧
      ∀ q, q ≠ p → Owns q conf.producer.lockKey w → Owns q conf.producer.lockKey w'
  allow := fun cmd _ _ => Living cmd

theorem lockedProgram_holds (p : Nat) (a : Call) (w : Lock.World World) :
    (lockedSetting serde conf p a).Holds (fun _ _ => True) (lockedProgram serde conf a) w := by
  by_cases producer : a = .producerFlow
  · subst producer
    have held := lockAcquireRelease_holds (M := commands (machine serde conf)) (p := p)
      (w := w) conf (producerFlow serde conf)
    exact .bind ((held.weaken fun _ _ _ kept => ⟨fun _ => kept.1, kept.2⟩).mono
      fun _ _ _ => trivial)
  · have free : lockedProgram serde conf a = inCallback (a.program serde conf) := by
      cases a with
      | producerFlow => exact absurd rfl producer
      | _ => rfl
    rw [free]
    refine (Setting.Holds.every (A := fun c => c.own = false) (I := fun _ => True)
      (fun _ _ _ _ _ => trivial) ?_ (inCallback_every (fun _ => rfl) _) trivial).mono
        fun _ _ _ => trivial
    intro cmd inside w o _ _ _
    cases cmd with
    | callback x =>
      exact ⟨⟨fun same => absurd same producer, fun _ _ owns => owns⟩, trivial, trivial⟩
    | _ => cases inside

def lockHolders (serde : Serde) (conf : SchedulerSettings) (keys : String → Option String)
    (table : Table) : Discipline (lockedMachine serde conf) (lockHeld conf)
      (.initial (.start keys (.start table))) where
  inv := fun _ => True
  rely := fun p w w' => Owns p conf.producer.lockKey w → Owns p conf.producer.lockKey w'
  guar := fun p a cmd w w' =>
    (a = .producerFlow → permitted conf.producer.lockKey p w cmd) ∧
      ∀ q, q ≠ p → Owns q conf.producer.lockKey w → Owns q conf.producer.lockKey w'
  allow := fun _ cmd _ _ => Living cmd
  post := fun _ _ _ _ => True
  rely_refl := fun _ _ owns => owns
  rely_trans := fun _ _ _ _ h g owns => g (h owns)
  starts := ⟨trivial, fun _ => rfl⟩
  allowed := fun live met => met.2 _ _ rfl _ _ _ live
  spawned := fun {c p a} _ _ _ _ => lockedProgram_holds p a c.world
  others := fun _ _ _ differ _ kept => kept.2 _ (Ne.symm differ)
  env := by
    intro c e t _ met _ moved
    refine ⟨trivial, fun q call cmd k live owns => ?_⟩
    cases e with
    | inner e => exact e.elim
    | expired key =>
      cases Option.some.inj moved
      by_cases here : key = conf.producer.lockKey
      · exact absurd owns (met.1.1 key rfl here q call cmd k live)
      · exact owns_expired here owns
  kept := fun _ _ _ _ _ _ _ => trivial

theorem reach_owns
    (reached : Machine.Reach (lockedMachine serde conf) (lockHeld conf)
      (.initial (.start keys (.start table))) c) {p : Nat} {x : Command}
    {k : Reply x → LockTask Reply Result}
    (live : c.procs p = .live .producerFlow (.await (.callback x) k)) :
    Owns p conf.producer.lockKey c.world := by
  have sound := (lockHolders serde conf keys table).sound reached
  have step := sound.holds p .producerFlow _ live c.world id trivial ⟨{}, .answered, true⟩ nofun
  exact step.1.1 rfl

def unlocked (serde : Serde) (conf : SchedulerSettings) (keys : String → Option String)
    (table : Table) : Simulation (lockedMachine serde conf) (lockHeld conf)
      (.initial (.start keys (.start table))) (machine serde conf) producersApart
      (.initial (.start table)) :=
  following (lockedProgram_enters serde conf)
    (by
      intro c c' p a x k reached related live idle
      refine ⟨?_, fun q way tasks same => ?_⟩
      · rintro rfl q b y next there rfl
        have other := related.procs q
        rw [there] at other
        obtain ⟨k', live'⟩ := other.awaits
        have same := owner_unique (reach_owns reached live) (reach_owns reached live')
        rw [← same, idle] at there
        cases there
      · cases same
        have other : ∀ c p (a : Call), lockHeld conf c (.spawn p a) →
            a ≠ .divideAndAppendTasks way tasks :=
          fun _ p a met same => met.1.2 p way tasks (congrArg (Action.spawn p) same)
        exact reached.called (fun _ => rfl) other live rfl)
    (by
      intro c' act other
      refine ⟨?_, fun p way tasks => other p _⟩
      cases act with
      | spawn p a => exact absurd rfl (other p a)
      | _ => trivial)

theorem lockedProgram_living (serde : Serde) (positive : 0 < conf.producer.lockTtl) (a : Call) :
    (lockedProgram serde conf a).every Living := by
  have free : ∀ t : SchedulerTask Result, (inCallback t : LockTask Reply Result).every Living :=
    inCallback_every fun _ => nofun
  cases a with
  | producerFlow =>
    refine Task.every_bind (lockAcquireRelease_every _ nofun nofun ?_ nofun fun _ => nofun)
      fun _ => trivial
    rintro _ _ ⟨⟩
    exact positive
  | _ => exact free _

theorem reach_held (positive : 0 < conf.producer.lockTtl)
    (reached : Machine.Reach (lockedMachine serde conf) (lockLives conf)
      (.initial (.start keys (.start table))) c) :
    Machine.Reach (lockedMachine serde conf) (lockHeld conf)
      (.initial (.start keys (.start table))) c :=
  reached.strengthen fun _ _ before met => ⟨met, fun _ _ _ _ _ _ live =>
    (before.every (fun _ => rfl) (lockedProgram_living serde positive) live).1⟩

/-- As long as the lock lives while a producer run has it, the workflow of a task is started at
most as often as the task was scheduled, with any number of schedulers, whatever fails or
crashes. -/
theorem locked_starts_le_scheduled (faithful : serde.Faithful)
    (positive : 0 < conf.producer.lockTtl)
    (reached : Machine.Reach (lockedMachine serde conf) (lockLives conf)
      (.initial (.start keys (.start table))) c) (id : String) :
    starts id c.world.inner.log ≤ scheduled id c.world.inner := by
  obtain ⟨c', reached', related⟩ :=
    (unlocked serde conf keys table).reach (reach_held positive reached)
  rw [← related.world]
  calc starts id c'.world.log ≤ reads serde id c'.world.log := reach_starts_le_reads reached' id
    _ ≤ appends serde id c'.world.log := (reach_readOnce reached').reads_le serde id
    _ ≤ scheduled id c'.world := ((scheduling faithful conf table).sound reached').inv.bounded id

end Locked

set_option maxRecDepth 8000 in
/-- Two producers run, and the second finds the lock taken. What the first one appends, a consumer
starts. -/
theorem locked_starts_le_scheduled_once : ∃ c : LockedConfig,
    starts "sync" c.world.inner.log = 1 ∧ scheduled "sync" c.world.inner = 1 ∧
    starts "sync" c.world.inner.log ≤ scheduled "sync" c.world.inner := by
  let go (p : Nat) (o : Choice) : Action (Lock.Choice Choice) (Lock.Env Empty) Call :=
    .step p ⟨o, .answered, true⟩
  let steps : List (Nat × Choice) :=
    [(1, { uuid := "c" }), (1, {}), (1, {}), (0, {}), (0, {}), (0, {}), (0, {}), (0, {}), (0, {}),
      (2, {}), (2, {}), (0, {}), (0, { uuid := "b" }), (0, {}), (0, {}), (0, {}), (0, {}), (0, {}),
      (0, {}), (1, {}), (1, {}), (1, {}), (1, {}), (1, {}), (1, {}), (1, {})]
  let spawns : List (Action (Lock.Choice Choice) (Lock.Env Empty) Call) :=
    [.spawn 0 .producerFlow, .spawn 1 .consumerOperations, .spawn 2 .producerFlow]
  let run := spawns ++ steps.map fun (p, o) => go p o
  obtain ⟨c, ran, once, counted⟩ : ∃ c, (lockedMachine dueTaskSerde sampleSettings).run
      (.initial (.start (fun _ => none) dueWorld)) run = some c ∧
      starts "sync" c.world.inner.log = 1 ∧ scheduled "sync" c.world.inner = 1 :=
    ⟨_, rfl, rfl, rfl⟩
  have met : (lockedMachine dueTaskSerde sampleSettings).Meets (lockLives sampleSettings)
      (.initial (.start (fun _ => none) dueWorld)) run := by
    refine Machine.meets_each fun act mem d => ?_
    rcases List.mem_append.mp mem with mem | mem
    · simp only [spawns, List.mem_cons, List.not_mem_nil, or_false] at mem
      rcases mem with rfl | rfl | rfl <;> exact ⟨nofun, nofun⟩
    · obtain ⟨⟨p, o⟩, _, rfl⟩ := List.mem_map.mp mem
      exact ⟨nofun, nofun⟩
  exact ⟨c, once, counted, locked_starts_le_scheduled dueTaskSerde_faithful (by decide)
    (Machine.reach_of_meets met ran) "sync"⟩

end Mercado.Scheduler
