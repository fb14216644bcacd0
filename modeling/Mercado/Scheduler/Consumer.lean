import Mercado.Async.Rely
import Mercado.Scheduler.Flows

/-! The consumer processes: a loop that starts the workflows of one round and waits for them
before the next one, until the process is told to stop. -/
namespace Mercado.Scheduler.Consumer
open Async

inductive Received where
  | empty | message | disconnected

/-- The awaits of the loop and the shared memory of its process. The commands of the flows are
those on the table and the stream. -/
inductive Command where
  | tick
  | getAllowedSignals
  | tryRecv
  | close
  | fetchAdd
  | fetchSub
  | loadActiveTasks
  | joinSignalHandler
  | spawnWorkflow (process : ProcessTracker)
  | joinWorkflow (task : Nat)
  | flow (c : Scheduler.Command)

abbrev Reply : Command → Type
  | .tick | .close | .fetchAdd | .fetchSub | .joinWorkflow _ => Unit
  | .getAllowedSignals | .joinSignalHandler => Except Unit Unit
  | .tryRecv => Received
  | .loadActiveTasks => UInt64
  | .spawnWorkflow _ => Nat
  | .flow c => Scheduler.Reply c

abbrev ConsumerTask := Task Command Reply

def call (c : Command) : ConsumerTask (Reply c) := Task.call c

def inFlow : (c : Scheduler.Command) → StateT (List Nat) ConsumerTask (Scheduler.Reply c)
  | .startWorkflow process => fun handler =>
    (call (.spawnWorkflow process)).bind fun task => .done ((), handler ++ [task])
  | c => fun handler => (call (.flow c)).bind fun r => .done (r, handler)

/-- Whether a workflow returned or panicked does not matter. -/
def joinAll : List Nat → ConsumerTask Unit
  | [] => .done ()
  | task :: tasks => (call (.joinWorkflow task)).bind fun _ => joinAll tasks

section Functions

variable (serde : Serde)

def consumerOperations : ConsumerTask (Except ProcessTrackerError Unit) :=
  (((Scheduler.consumerOperations serde).run.interpret inFlow).run []).bind fun x =>
    (joinAll x.2).bind fun _ => .done x.1

/-- Errors of a round are only logged. -/
def consumerOperationHandler : ConsumerTask Unit :=
  (call .fetchAdd).bind fun _ => (consumerOperations serde).bind fun _ => call .fetchSub

def awaitShutdown : Nat → ConsumerTask Bool
  | 0 => .done false
  | looks + 1 => (call .tick).bind fun _ => (call .loadActiveTasks).bind fun activeTasks =>
    if activeTasks = 0 then .done true else awaitShutdown looks

variable (conf : SchedulerSettings)

/-- The loop, for at most so many rounds. It says whether it has ended by then. -/
def consumerLoop (looks : Nat) : Nat → ConsumerTask Bool
  | 0 => .done false
  | rounds + 1 => (call .tryRecv).bind fun
    | .empty => (call .tick).bind fun _ =>
      if conf.consumer.disabled then consumerLoop looks rounds
      else (consumerOperationHandler serde).bind fun _ => consumerLoop looks rounds
    | .message | .disconnected => (call .close).bind fun _ => awaitShutdown looks

/-- Without a result the loop goes on. -/
def startConsumer (rounds looks : Nat) : ConsumerTask (Option (Except ProcessTrackerError Unit)) :=
  (call .tick).bind fun _ => (call .getAllowedSignals).bind fun
    | .error _ => .done (some (.error .configurationError))
    | .ok _ => (consumerLoop serde conf looks rounds).bind fun
      | false => .done none
      | true => (call .joinSignalHandler).bind fun r =>
        .done (some (r.mapError fun _ => .unexpectedFlow))

end Functions

/-- `trigger_workflow` is code of the application, of which the scheduler knows nothing. -/
abbrev Workflows := ProcessTracker → SchedulerTask (Except ProcessTrackerError Unit)

def startWorkflow (triggerWorkflow : Workflows) (process : ProcessTracker) :
    ConsumerTask (Except ProcessTrackerError Unit) :=
  (triggerWorkflow process).interpret fun c => call (.flow c)

/- The shared state of all processes. -/

structure Channel where
  message : Bool
  sender : Bool
  closed : Bool

/-- A workflow is spawned by a consumer for a task; a handle is joined once. -/
structure World where
  scheduler : Scheduler.World
  channel : Nat → Channel
  activeTasks : Nat → UInt64
  spawned : Nat → Option (Nat × ProcessTracker)
  joined : Nat → Bool

namespace World

variable (w : World)

def start (scheduler : Scheduler.World) : World :=
  ⟨scheduler, fun _ => ⟨false, true, false⟩, fun _ => 0, fun _ => none, fun _ => false⟩

def setChannel (consumer : Nat) (channel : Channel) : World :=
  { w with channel := Function.update w.channel consumer channel }

def setActiveTasks (consumer : Nat) (n : UInt64) : World :=
  { w with activeTasks := Function.update w.activeTasks consumer n }

def spawn (consumer : Nat) (process : ProcessTracker) (task : Nat) : World :=
  { w with spawned := Function.update w.spawned task (some (consumer, process)) }

def join (task : Nat) : World := { w with joined := Function.update w.joined task true }

end World

structure Choice where
  scheduler : Scheduler.Choice := {}
  task : Nat := 0
  failed : Bool := false

def exec (p : Nat) : (c : Command) → Choice → World → Reply c × World
  | .tick, _, w => ((), w)
  | .getAllowedSignals, o, w => (if o.failed then .error () else .ok (), w)
  | .tryRecv, _, w =>
    if (w.channel p).message then (.message, w.setChannel p { w.channel p with message := false })
    else (if (w.channel p).sender then .empty else .disconnected, w)
  | .close, _, w => ((), w.setChannel p { w.channel p with closed := true })
  | .fetchAdd, _, w => ((), w.setActiveTasks p (w.activeTasks p + 1))
  | .fetchSub, _, w => ((), w.setActiveTasks p (w.activeTasks p - 1))
  | .loadActiveTasks, _, w => (w.activeTasks p, w)
  | .joinSignalHandler, o, w => (if o.failed then .error () else .ok (), w)
  | .spawnWorkflow process, o, w =>
    let ran := Scheduler.exec p (.startWorkflow process) o.scheduler w.scheduler
    (o.task, { w.spawn p process o.task with scheduler := ran.2 })
  | .joinWorkflow task, _, w => ((), w.join task)
  | .flow c, o, w =>
    let ran := Scheduler.exec p c o.scheduler w.scheduler
    (ran.1, { w with scheduler := ran.2 })

/-- A signal reaches the handler of a process, or the handler ends without one. -/
inductive Env where
  | signalled (consumer : Nat)
  | released (consumer : Nat)

def change : Env → World → World
  | .signalled consumer, w =>
    let channel := w.channel consumer
    w.setChannel consumer
      { channel with
        message := channel.message || channel.sender && !channel.closed
        sender := false }
  | .released consumer, w => w.setChannel consumer { w.channel consumer with sender := false }

inductive Call where
  | startConsumer (rounds looks : Nat)
  | startWorkflow (process : ProcessTracker)

inductive Result where
  | consumer (r : Option (Except ProcessTrackerError Unit))
  | workflow (r : Except ProcessTrackerError Unit)

def Call.program (serde : Serde) (conf : SchedulerSettings) (triggerWorkflow : Workflows) :
    Call → ConsumerTask Result
  | .startConsumer rounds looks =>
    (Consumer.startConsumer serde conf rounds looks).bind (.done ∘ .consumer)
  | .startWorkflow process =>
    (Consumer.startWorkflow triggerWorkflow process).bind (.done ∘ .workflow)

def machine (serde : Serde) (conf : SchedulerSettings) (triggerWorkflow : Workflows) :
    Machine Command Reply World Choice Env Call Result where
  exec := exec
  env := fun e w => some (change e w)
  program := Call.program serde conf triggerWorkflow

abbrev ConsumerConfig := Config Command Reply World Call Result

/-- What the runtime does: a workflow runs once it is spawned, as a task of its own, and to join
it is to wait for its end. -/
def scheduled (c : ConsumerConfig) : Action Choice Env Call → Bool
  | .spawn q (.startWorkflow process) => (c.world.spawned q).map Prod.snd = some process
  | .spawn q (.startConsumer _ _) => (c.world.spawned q).isNone
  | .step p o => match c.procs p with
    | .live _ (.await (.spawnWorkflow _) _) =>
      (c.procs o.task).call.isNone && (c.world.spawned o.task).isNone
    | .live _ (.await (.joinWorkflow task) _) => Machine.atEnd (c.procs task)
    | _ => true
  | _ => true

/- What the loop knows of its own workflows and of its counter. -/

def Command.between : Command → Bool
  | .tick | .getAllowedSignals | .tryRecv | .close | .fetchAdd | .loadActiveTasks
  | .joinSignalHandler => true
  | .fetchSub | .spawnWorkflow _ | .joinWorkflow _ | .flow _ => false

structure Owns (p : Nat) (handler : List Nat) (activeTasks : UInt64) (w : World) : Prop where
  handled : ∀ task process, w.spawned task = some (p, process) →
    w.joined task = true ∨ task ∈ handler
  counted : w.activeTasks p = activeTasks

abbrev AtRest (p : Nat) (w : World) : Prop := Owns p [] 0 w

structure Apart (p : Nat) (w w' : World) : Prop where
  spawned : ∀ task process, w'.spawned task = some (p, process) →
    w.spawned task = some (p, process)
  joined : ∀ task, w.joined task = true → w'.joined task = true
  activeTasks : w'.activeTasks p = w.activeTasks p

variable {serde : Serde} {conf : SchedulerSettings} {triggerWorkflow : Workflows} {p q : Nat}
  {w w' : World} {handler : List Nat} {n : UInt64}

theorem Apart.refl (p : Nat) (w : World) : Apart p w w :=
  ⟨fun _ _ spawned => spawned, fun _ joined => joined, rfl⟩

theorem Apart.trans {u : World} (h : Apart p w w') (g : Apart p w' u) : Apart p w u where
  spawned := fun task process spawned => h.spawned task process (g.spawned task process spawned)
  joined := fun task joined => g.joined task (h.joined task joined)
  activeTasks := g.activeTasks.trans h.activeTasks

theorem Owns.apart (owns : Owns p handler n w) (h : Apart p w w') : Owns p handler n w' where
  handled := fun task process spawned =>
    (owns.handled task process (h.spawned task process spawned)).imp_left (h.joined task)
  counted := h.activeTasks.trans owns.counted

theorem World.join_joined {task other : Nat} (joined : w.joined other = true) :
    (w.join task).joined other = true := by
  by_cases same : other = task
  · rw [same]
    exact Function.update_self ..
  · exact (Function.update_of_ne same ..).trans joined

theorem setActiveTasks_apart (differ : q ≠ p) (n : UInt64) : Apart q w (w.setActiveTasks p n) :=
  ⟨fun _ _ spawned => spawned, fun _ joined => joined, Function.update_of_ne differ ..⟩

theorem exec_apart (differ : q ≠ p) (cmd : Command) (o : Choice) :
    Apart q w (exec p cmd o w).2 := by
  cases cmd with
  | tick | getAllowedSignals | loadActiveTasks | joinSignalHandler => exact .refl q w
  | tryRecv =>
    simp only [exec]
    split <;> exact ⟨fun _ _ spawned => spawned, fun _ joined => joined, rfl⟩
  | close | flow c => exact ⟨fun _ _ spawned => spawned, fun _ joined => joined, rfl⟩
  | fetchAdd => exact setActiveTasks_apart differ _
  | fetchSub => exact setActiveTasks_apart differ _
  | spawnWorkflow process =>
    refine ⟨fun task process' spawned => ?_, fun _ joined => joined, rfl⟩
    by_cases same : task = o.task
    · subst same
      have new : (w.spawn p process o.task).spawned o.task = some (p, process) :=
        Function.update_self ..
      have own : some (p, process) = some (q, process') := new.symm.trans spawned
      cases own
      exact absurd rfl differ
    · exact (Function.update_of_ne same ..).symm.trans spawned
  | joinWorkflow task => exact ⟨fun _ _ spawned => spawned, fun _ => World.join_joined, rfl⟩

theorem exec_joined {task : Nat} (cmd : Command) (o : Choice)
    (joined : (exec p cmd o w).2.joined task = true) :
    w.joined task = true ∨ cmd = .joinWorkflow task := by
  cases cmd with
  | tryRecv =>
    simp only [exec] at joined
    split at joined <;> exact .inl joined
  | joinWorkflow other =>
    by_cases same : task = other
    · exact .inr (congrArg _ same.symm)
    · exact .inl ((Function.update_of_ne same ..).symm.trans joined)
  | _ => exact .inl joined

theorem change_apart (p : Nat) (e : Env) (w : World) : Apart p w (change e w) := by
  cases e <;> exact ⟨fun _ _ spawned => spawned, fun _ joined => joined, rfl⟩

def Call.Consumes : Call → Prop
  | .startConsumer _ _ => True
  | .startWorkflow _ => False

def consumerSetting (p : Nat) (a : Call) : Setting Command Reply World Choice where
  exec := exec p
  inv := fun _ => True
  rely := Apart p
  guar := fun cmd w w' => (a.Consumes → cmd.between = true → AtRest p w) ∧
    ∀ q, q ≠ p → Apart q w w'
  allow := fun _ _ _ => True

section Rules

variable {a : Call}

theorem owns_stable : (consumerSetting p a).Stable (Owns p handler n) :=
  fun _ _ moved _ owns => owns.apart moved

theorem step_of {cmd : Command} {I : World → Prop} {Q : Reply cmd → World → Prop}
    (rest : ∀ w, I w → cmd.between = true → AtRest p w)
    (after : ∀ w o, I w → Q (exec p cmd o w).1 (exec p cmd o w).2) :
    (consumerSetting p a).Step I cmd Q :=
  fun w o _ _ holds => ⟨⟨fun _ => rest w holds, fun _ differ => exec_apart differ cmd o⟩, trivial,
    after w o holds⟩

theorem rest_step {cmd : Command}
    (same : ∀ w o, Apart p w (exec p cmd o w).2) :
    (consumerSetting p a).Step (AtRest p) cmd fun _ => AtRest p :=
  step_of (fun _ rest _ => rest) fun w o rest => rest.apart (same w o)

theorem tick_step : (consumerSetting p a).Step (AtRest p) .tick fun _ => AtRest p :=
  rest_step fun w _ => .refl p w

theorem getAllowedSignals_step :
    (consumerSetting p a).Step (AtRest p) .getAllowedSignals fun _ => AtRest p :=
  rest_step fun w _ => .refl p w

theorem joinSignalHandler_step :
    (consumerSetting p a).Step (AtRest p) .joinSignalHandler fun _ => AtRest p :=
  rest_step fun w _ => .refl p w

theorem tryRecv_step : (consumerSetting p a).Step (AtRest p) .tryRecv fun _ => AtRest p := by
  refine rest_step fun w o => ?_
  simp only [exec]
  split <;> exact ⟨fun _ _ spawned => spawned, fun _ joined => joined, rfl⟩

theorem close_step : (consumerSetting p a).Step (AtRest p) .close fun _ => AtRest p :=
  rest_step fun _ _ => ⟨fun _ _ spawned => spawned, fun _ joined => joined, rfl⟩

theorem loadActiveTasks_step :
    (consumerSetting p a).Step (AtRest p) .loadActiveTasks fun n w => n = 0 ∧ AtRest p w :=
  step_of (fun _ rest _ => rest) fun _ _ rest => ⟨rest.counted, rest⟩

theorem fetchAdd_step : (consumerSetting p a).Step (AtRest p) .fetchAdd fun _ => Owns p [] 1 := by
  refine step_of (fun _ rest _ => rest) fun w o rest => ⟨rest.handled, ?_⟩
  change Function.update w.activeTasks p (w.activeTasks p + 1) p = 1
  rw [Function.update_self, rest.counted]
  rfl

theorem fetchSub_step : (consumerSetting p a).Step (Owns p [] 1) .fetchSub fun _ => AtRest p := by
  refine step_of (fun _ _ between => nomatch between) fun w o owns => ⟨owns.handled, ?_⟩
  change Function.update w.activeTasks p (w.activeTasks p - 1) p = 0
  rw [Function.update_self, owns.counted]
  rfl

theorem spawnWorkflow_step {process : ProcessTracker} : (consumerSetting p a).Step
    (Owns p handler n) (.spawnWorkflow process) fun task => Owns p (handler ++ [task]) n := by
  refine step_of (fun _ _ between => nomatch between) fun w o owns => ⟨?_, owns.counted⟩
  intro task process' spawned
  by_cases same : task = o.task
  · exact .inr (List.mem_append_right _ (List.mem_singleton.mpr same))
  · have before : w.spawned task = some (p, process') :=
      (Function.update_of_ne same ..).symm.trans spawned
    exact (owns.handled task process' before).imp_right (List.mem_append_left _)

theorem joinWorkflow_step {task : Nat} : (consumerSetting p a).Step
    (Owns p (task :: handler) n) (.joinWorkflow task) fun _ => Owns p handler n := by
  refine step_of (fun _ _ between => nomatch between) fun w o owns => ⟨?_, owns.counted⟩
  intro other process spawned
  rcases owns.handled other process spawned with joined | mem
  · exact .inl (World.join_joined joined)
  · rcases List.mem_cons.mp mem with rfl | mem
    · exact .inl (Function.update_self ..)
    · exact .inr mem

theorem flow_step {c : Scheduler.Command} : (consumerSetting p a).Step
    (Owns p handler n) (.flow c) fun _ => Owns p handler n :=
  step_of (fun _ _ between => nomatch between) fun _ _ owns => ⟨owns.handled, owns.counted⟩

theorem call_holds {α : Type} {cmd : Command} {I : World → Prop} {Q : Reply cmd → World → Prop}
    {f : Reply cmd → ConsumerTask α} {post : α → World → Prop}
    (stable : (consumerSetting p a).Stable I) (step : (consumerSetting p a).Step I cmd Q)
    (rest : ∀ r w, Q r w → (consumerSetting p a).Holds post (f r) w) (holds : I w) :
    (consumerSetting p a).Holds post ((call cmd).bind f) w :=
  .await stable step rest holds

theorem inFlow_holds {α : Type} (t : SchedulerTask α) (owns : Owns p handler n w) :
    (consumerSetting p a).Holds (fun x w => Owns p x.2 n w) ((t.interpret inFlow).run handler) w := by
  induction t generalizing handler w with
  | done r => exact owns
  | await c k ih =>
    cases c with
    | startWorkflow process =>
      exact .await owns_stable spawnWorkflow_step (fun task w owns => ih () owns) owns
    | _ => exact .await owns_stable flow_step (fun r w owns => ih r owns) owns

theorem joinAll_holds (owns : Owns p handler n w) :
    (consumerSetting p a).Holds (fun _ w => Owns p [] n w) (joinAll handler) w := by
  induction handler generalizing w with
  | nil => exact owns
  | cons task tasks ih => exact call_holds owns_stable joinWorkflow_step (fun _ w owns => ih owns) owns

theorem consumerOperationHandler_holds (rest : AtRest p w) : (consumerSetting p a).Holds
    (fun _ => AtRest p) (consumerOperationHandler serde) w := by
  refine call_holds owns_stable fetchAdd_step (fun _ w owns => ?_) rest
  refine .bind (.bind ((inFlow_holds _ owns).mono fun x w owns => ?_))
  refine .bind ((joinAll_holds owns).mono fun _ w owns => ?_)
  exact .call owns_stable fetchSub_step owns

theorem awaitShutdown_holds {looks : Nat} (rest : AtRest p w) :
    (consumerSetting p a).Holds (fun _ => AtRest p) (awaitShutdown looks) w := by
  cases looks with
  | zero => exact rest
  | succ looks =>
    refine call_holds owns_stable tick_step (fun _ w rest => ?_) rest
    refine call_holds owns_stable loadActiveTasks_step (fun n w after => ?_) rest
    obtain ⟨rfl, rest⟩ := after
    exact rest

theorem consumerLoop_holds {looks rounds : Nat} (rest : AtRest p w) :
    (consumerSetting p a).Holds (fun _ => AtRest p) (consumerLoop serde conf looks rounds) w := by
  induction rounds generalizing w with
  | zero => exact rest
  | succ rounds ih =>
    refine call_holds owns_stable tryRecv_step (fun received w rest => ?_) rest
    cases received with
    | empty =>
      refine call_holds owns_stable tick_step (fun _ w rest => ?_) rest
      split
      · exact ih rest
      · exact .bind ((consumerOperationHandler_holds rest).mono fun _ _ rest => ih rest)
    | message =>
      exact call_holds owns_stable close_step (fun _ _ rest => awaitShutdown_holds rest) rest
    | disconnected =>
      exact call_holds owns_stable close_step (fun _ _ rest => awaitShutdown_holds rest) rest

theorem startConsumer_holds {rounds looks : Nat} (rest : AtRest p w) :
    (consumerSetting p a).Holds (fun _ => AtRest p) (startConsumer serde conf rounds looks) w := by
  refine call_holds owns_stable tick_step (fun _ w rest => ?_) rest
  refine call_holds owns_stable getAllowedSignals_step (fun r w rest => ?_) rest
  cases r with
  | error e => exact rest
  | ok u =>
    refine .bind ((consumerLoop_holds rest).mono fun ended w rest => ?_)
    cases ended with
    | false => exact rest
    | true => exact call_holds owns_stable joinSignalHandler_step (fun _ _ rest => rest) rest

end Rules

/- Every run. -/

section Runs

variable {ok : ConsumerConfig → Action Choice Env Call → Prop} {scheduler : Scheduler.World}
  {c d : ConsumerConfig}

theorem step_apart {act : Action Choice Env Call}
    (hs : (machine serde conf triggerWorkflow).step c act = some d) (other : act.process ≠ some p) :
    Apart p c.world d.world := by
  rcases Machine.step_world hs with same | ⟨q, o, _, cmd, _, rfl, _, world⟩ | ⟨e, rfl, moved⟩
  · rw [same]
    exact .refl p c.world
  · have differ : p ≠ q := fun same => other (same ▸ rfl)
    rw [world]
    exact exec_apart differ cmd o
  · rw [← Option.some.inj moved]
    exact change_apart p e c.world

theorem idle_rest
    (reached : Machine.Reach (machine serde conf triggerWorkflow) ok (.initial (.start scheduler)) c)
    (idle : c.procs p = .idle) : AtRest p c.world := by
  refine reached.invariant (I := fun c => c.procs p = .idle → AtRest p c.world)
    (fun _ => ⟨fun _ _ spawned => (nomatch spawned), rfl⟩) ?_ idle
  intro c act d _ before _ hs idle
  obtain ⟨other, wasIdle⟩ := Machine.step_idle hs idle
  exact (before wasIdle).apart (step_apart hs other)

theorem workflow_holds {a : Call} (workflow : ¬ a.Consumes) (t : ConsumerTask Result) :
    (consumerSetting p a).Holds (fun _ _ => True) t w := by
  induction t generalizing w with
  | done r => trivial
  | await cmd k ih =>
    exact fun _ _ _ o _ =>
      ⟨⟨fun consumes => absurd consumes workflow, fun _ differ => exec_apart differ cmd o⟩, trivial,
        ih _⟩

def consumers (serde : Serde) (conf : SchedulerSettings) (triggerWorkflow : Workflows)
    (ok : ConsumerConfig → Action Choice Env Call → Prop) (scheduler : Scheduler.World) :
    Discipline (machine serde conf triggerWorkflow) ok (.initial (.start scheduler)) where
  inv := fun _ => True
  rely := Apart
  guar := fun p a cmd w w' => (a.Consumes → cmd.between = true → AtRest p w) ∧
    ∀ q, q ≠ p → Apart q w w'
  allow := fun _ _ _ _ => True
  post := fun p a _ w => a.Consumes → AtRest p w
  rely_refl := Apart.refl
  rely_trans := fun _ _ _ _ => Apart.trans
  starts := ⟨trivial, fun _ => rfl⟩
  allowed := fun _ _ => trivial
  spawned := by
    intro c p a reached _ idle _
    cases a with
    | startConsumer rounds looks =>
      exact .bind ((startConsumer_holds (idle_rest reached idle)).mono fun _ _ rest _ => rest)
    | startWorkflow process =>
      exact (workflow_holds id _).mono fun _ _ _ consumes => consumes.elim
  others := fun _ _ _ differ _ kept => kept.2 _ (Ne.symm differ)
  env := by
    intro c e t _ _ _ moved
    cases Option.some.inj moved
    exact ⟨trivial, fun q _ _ _ _ => change_apart q e c.world⟩
  kept := fun _ _ hs _ _ live rest consumes =>
    (rest consumes).apart (step_apart hs (Machine.step_done hs live))

theorem joined_ended
    (reached : Machine.Reach (machine serde conf triggerWorkflow)
      (fun c act => scheduled c act = true) (.initial (.start scheduler)) c) {task : Nat}
    (joined : c.world.joined task = true) : Machine.atEnd (c.procs task) = true := by
  refine reached.invariant
    (I := fun c => c.world.joined task = true → Machine.atEnd (c.procs task) = true) nofun ?_ joined
  intro c act d _ before met hs joined
  suffices ended : c.world.joined task = true ∨ Machine.atEnd (c.procs task) = true by
    rw [Machine.step_atEnd hs (ended.elim before id)]
    exact ended.elim before id
  rcases Machine.step_world hs with same | ⟨p, o, a, cmd, k, rfl, live, world⟩ | ⟨e, rfl, moved⟩
  · exact .inl (same ▸ joined)
  · rw [world] at joined
    refine (exec_joined cmd o joined).imp_right ?_
    rintro rfl
    simp only [scheduled, live] at met
    exact met
  · rw [← Option.some.inj moved] at joined
    cases e <;> exact .inl joined

def Outside : ConsumerTask Result → Prop
  | .done _ => True
  | .await cmd _ => cmd.between = true

/-- Whatever the workflows do, fail or panic, whenever the signals come and however the processes
interleave: a consumer is between two rounds, waits for its shutdown or has returned only when all
workflows it has started have ended. Its counter is zero there, so that it sees no active task. -/
theorem consumer_awaits_workflows {rounds looks : Nat} {t : ConsumerTask Result}
    (reached : Machine.Reach (machine serde conf triggerWorkflow)
      (fun c act => scheduled c act = true) (.initial (.start scheduler)) c)
    (live : c.procs p = .live (.startConsumer rounds looks) t) (outside : Outside t) :
    c.world.activeTasks p = 0 ∧ ∀ task process, c.world.spawned task = some (p, process) →
      Machine.atEnd (c.procs task) = true := by
  have holds := ((consumers serde conf triggerWorkflow _ scheduler).sound reached).holds p _ t live
  have rest : AtRest p c.world := by
    cases t with
    | done r => exact holds trivial
    | await cmd k =>
      exact (holds c.world (.refl p c.world) trivial {} trivial).1.1 trivial outside
  refine ⟨rest.counted, fun task process spawned => ?_⟩
  rcases rest.handled task process spawned with joined | mem
  · exact joined_ended reached joined
  · cases mem

end Runs

def oneBatch : Scheduler.World :=
  { dueWorld.append 9 0 [("id", "b"), ("group_name", ""), ("stream_name", ""),
      ("connection_name", ""), ("created_time", "0"), ("rule", ""), ("trackers", dueTaskText)] with
    group := some ⟨0, []⟩ }

def returnedAfter (c : ConsumerConfig) (process : ProcessTracker) : Bool :=
  match c.procs 0 with
  | .live (.startConsumer _ _) (.done _) => c.world.spawned 1 = some (0, process)
  | _ => false

/-- A round with one workflow, which panics, and then a signal. -/
theorem consumer_awaits_workflows_panicked : ∃ c : ConsumerConfig,
    returnedAfter c { dueTask with status := .processStarted } = true ∧
    c.world.activeTasks 0 = 0 ∧ ∀ task process, c.world.spawned task = some (0, process) →
      Machine.atEnd (c.procs task) = true := by
  let M := machine dueTaskSerde sampleSettings fun _ =>
    (Scheduler.call .now).bind fun _ => .done (.ok ())
  let acts : List (Action Choice Env Call) :=
    .spawn 0 (.startConsumer 2 1) :: List.replicate 14 (.step 0 {}) ++
      [.step 0 { task := 1 },
        .spawn 1 (.startWorkflow { dueTask with status := .processStarted }), .crash 1,
        .step 0 {}, .step 0 {}, .env (.signalled 0)] ++ List.replicate 5 (.step 0 {})
  have ran : (M.run (.initial (.start oneBatch)) acts).any
      (returnedAfter · { dueTask with status := .processStarted }) = true := by decide +kernel
  have checked : M.checks scheduled (.initial (.start oneBatch)) acts = true := by decide +kernel
  obtain ⟨c, ran, returned⟩ := (Option.any_eq_true _ _).mp ran
  have reached := Machine.reach_of_meets (Machine.meets_of_checks checked) ran
  have rest : ∃ rounds looks r, c.procs 0 = .live (.startConsumer rounds looks) (.done r) := by
    have back := returned
    unfold returnedAfter at back
    split at back
    · rename_i rounds looks r live
      exact ⟨rounds, looks, r, live⟩
    · cases back
  obtain ⟨_, _, _, live⟩ := rest
  exact ⟨c, returned, consumer_awaits_workflows reached live trivial⟩

end Mercado.Scheduler.Consumer
