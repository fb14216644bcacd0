import Mercado.Async.Machine
import Mercado.Redis.Stream
import Mercado.Scheduler.Batch

/-! The flows of the scheduler and the operations on single tasks. A producer moves due
tasks to the stream in batches, consumers read the batches and start the workflows. -/
namespace Mercado.Scheduler
open Async Redis

/-- The awaited steps: statements on the table, Redis commands on the scheduler stream
and its one consumer group, the clock, the random ids, and the start of a workflow.
XREADGROUP reads one entry. -/
inductive Command where
  | isRedisAvailable
  | now
  | newUuid
  | findProcessesByTimeStatus (lower upper : PrimitiveDateTime) (status : ProcessTrackerStatus)
      (limit : Option Nat)
  | updateProcessStatusByIds (ids : List String) (update : ProcessTrackerUpdateInternal)
  | reinitializeLimboProcesses (ids : List String) (scheduleTime : PrimitiveDateTime)
  | updateById (id : String) (update : ProcessTrackerUpdateInternal)
  | insertProcess (new : ProcessTrackerNew)
  | xadd (fields : FieldValuePairs)
  | xgroupCreate
  | xreadgroup (consumer : String)
  | xack (ids : List Nat)
  | xdel (ids : List Nat)
  | startWorkflow (process : ProcessTracker)

abbrev Reply : Command → Type
  | .isRedisAvailable => Bool
  | .now => PrimitiveDateTime
  | .newUuid => String
  | .findProcessesByTimeStatus .. => Except StorageError (List ProcessTracker)
  | .updateProcessStatusByIds .. => Except StorageError Nat
  | .reinitializeLimboProcesses .. => Except StorageError Nat
  | .updateById .. => Except StorageError ProcessTracker
  | .insertProcess .. => Except StorageError ProcessTracker
  | .xadd .. => Except Unit Unit
  | .xgroupCreate => Except Unit Unit
  | .xreadgroup .. => Except RedisError (List (Entry FieldValuePairs))
  | .xack .. => Except Unit Nat
  | .xdel .. => Except Unit Nat
  | .startWorkflow .. => Unit

abbrev SchedulerTask := Task Command Reply
abbrev Flow := ExceptT ProcessTrackerError SchedulerTask

abbrev call (c : Command) : SchedulerTask (Reply c) := Task.call c

def getRedisConn : ExceptT RedisError SchedulerTask Unit := do
  if ← ExceptT.lift (call .isRedisAvailable) then
    return ()
  else
    throw .redisConnectionError

/- Statements on the table. -/

def processTrackerUpdateProcessStatusByIds (ids : List String) (update : ProcessTrackerUpdate) :
    SchedulerTask (Except StorageError Nat) :=
  (call .now).bind fun now => call (.updateProcessStatusByIds ids (update.toInternal now))

/-- An update that sets nothing leaves the row as it was given. -/
def updateProcess (this : ProcessTracker) (process : ProcessTrackerUpdate) :
    ExceptT StorageError SchedulerTask ProcessTracker :=
  .mk ((call .now).bind fun now => (call (.updateById this.id (process.toInternal now))).bind
    fun r => .done (match r with
      | .error (.databaseError .noFieldsToUpdate) => .ok this
      | r => r))

def resetProcess (this : ProcessTracker) (scheduleTime : PrimitiveDateTime) :
    ExceptT StorageError SchedulerTask Unit := do
  let _ ← updateProcess this (.statusRetryUpdate .new 0 scheduleTime)
  return ()

def retryProcess (this : ProcessTracker) (scheduleTime : PrimitiveDateTime) :
    ExceptT StorageError SchedulerTask Unit := do
  let _ ← updateProcess this (.statusRetryUpdate .pending (this.retryCount + 1) scheduleTime)
  return ()

def finishProcessWithBusinessStatus (this : ProcessTracker) (businessStatus : String) :
    ExceptT StorageError SchedulerTask Unit := do
  let _ ← updateProcess this (.statusUpdate .finish (some businessStatus))
  return ()

def consumerErrorHandler (process : ProcessTracker) : Flow Unit := do
  let _ ← Task.changeContext .processUpdateFailed
    (processTrackerUpdateProcessStatusByIds [process.id]
      (.statusUpdate .finish (some "GLOBAL_ERROR")))
  return ()

def createTask (processTrackerEntry : ProcessTrackerNew) : ExceptT StorageError SchedulerTask Unit := do
  let _ ← ExceptT.mk (call (.insertProcess processTrackerEntry))
  return ()

/- The producer. -/

def streamAppendEntry (fields : FieldValuePairs) : ExceptT RedisError SchedulerTask Unit := do
  getRedisConn
  Task.changeContext .streamAppendFailed (call (.xadd fields))

def updateStatus (flow : SchedulerFlow) (processIds : List String) : Flow Unit :=
  match flow with
  | .producer => do
    let _ ← Task.changeContext .processUpdateFailed
      (processTrackerUpdateProcessStatusByIds processIds (.statusUpdate .processing none))
    return ()
  | .cleaner => do
    let now ← ExceptT.lift (call .now)
    let _ ← Task.changeContext .processUpdateFailed (call (.reinitializeLimboProcesses processIds now))
    return ()
  | .consumer => throw .unexpectedFlow

section Flows

variable (serde : Serde)

/-- When the batch cannot be appended, the status of its trackers is updated again,
and errors of that are only attached to the first one. -/
def updateStatusAndAppend (flow : SchedulerFlow) (ptBatch : ProcessTrackerBatch) : Flow Unit := do
  let processIds := ptBatch.trackers.map ProcessTracker.id
  updateStatus flow processIds
  let fieldValuePairs ← ExceptT.mk (.done (ptBatch.toRedisFieldValuePairs serde))
  match ← ExceptT.lift (streamAppendEntry fieldValuePairs).run with
  | .ok x => return x
  | .error _ =>
    let _ ← ExceptT.lift
      (processTrackerUpdateProcessStatusByIds processIds (.statusUpdate .processing none))
    throw .batchInsertionFailed

/-- Errors of single batches are only logged. -/
def appendBatches (flow : SchedulerFlow) : List ProcessTrackerBatch → Flow Unit
  | [] => return ()
  | batch :: batches => do
    let _ ← ExceptT.lift (updateStatusAndAppend serde flow batch).run
    appendBatches flow batches

variable (conf : SchedulerSettings)

def divideAndAppendTasks (flow : SchedulerFlow) (tasks : List ProcessTracker) : Flow Unit := do
  let now ← ExceptT.lift (call .now)
  let batchId ← ExceptT.lift (call .newUuid)
  match divideIntoBatches conf.producer.batchSize tasks now batchId conf with
  | none => throw .panicked
  | some batches => appendBatches serde flow batches

def fetchProducerTasks : Flow (List ProcessTracker) := do
  let now ← ExceptT.lift (call .now)
  let some timeUpperLimit := PrimitiveDateTime.checkedAdd now conf.producer.upperFetchLimit
    | throw .configurationError
  let some timeLowerLimit := PrimitiveDateTime.checkedAdd now (-conf.producer.lowerFetchLimit)
    | throw .configurationError
  let newTasks ← Task.changeContext .processFetchingFailed
    (call (.findProcessesByTimeStatus timeLowerLimit timeUpperLimit .new none))
  let pendingTasks ← Task.changeContext .processFetchingFailed
    (call (.findProcessesByTimeStatus timeLowerLimit timeUpperLimit .pending none))
  return newTasks ++ pendingTasks

/-- What `run_producer_flow` does under the lock. -/
def producerFlow : Flow Unit := do
  let tasks ← fetchProducerTasks conf
  divideAndAppendTasks serde conf .producer tasks

/- The consumer. -/

def getBatches (consumerName : String) : Flow (List ProcessTrackerBatch) := do
  match ← ExceptT.lift (call (.xreadgroup consumerName)) with
  | .error .streamEmptyOrNotAvailable => return []
  | .error _ => throw .batchNotFound
  | .ok entries =>
    let batches ← ExceptT.mk (.done (entries.mapM fun entry =>
      ProcessTrackerBatch.fromRedisStreamEntry serde (readFields entry.fields)))
    let entryIds := entries.map Entry.id
    let _ ← Task.changeContext .batchUpdateFailed (call (.xack entryIds))
    let _ ← Task.changeContext .batchDeleteFailed (call (.xdel entryIds))
    return batches

def validTrackers (batches : List ProcessTrackerBatch) : List ProcessTracker :=
  batches.flatMap fun batch =>
    batch.trackers.filter fun task => task.isValidBusinessStatus validBusinessStatuses

def fetchConsumerTasks (consumerName : String) : Flow (List ProcessTracker) := do
  Task.changeContext (.eRedisError .redisConnectionError) getRedisConn.run
  let batches ← getBatches serde consumerName
  if batches.isEmpty then
    return []
  else
    let tasks := validTrackers batches
    let _ ← Task.changeContext .processFetchingFailed
      (processTrackerUpdateProcessStatusByIds (tasks.map ProcessTracker.id)
        (.statusUpdate .processStarted none))
    return tasks.map fun x => { x with status := .processStarted }

def consumerGroupCreate : ExceptT RedisError SchedulerTask Unit := do
  getRedisConn
  Task.changeContext .consumerGroupCreateFailed (call .xgroupCreate)

def startWorkflows : List ProcessTracker → SchedulerTask Unit
  | [] => .done ()
  | task :: tasks => (call (.startWorkflow task)).bind fun _ => startWorkflows tasks

/-- A group that cannot be created is taken to exist. -/
def consumerOperations : Flow Unit := do
  let uuid ← ExceptT.lift (call .newUuid)
  let consumerName := "consumer_" ++ uuid
  let _ ← ExceptT.lift consumerGroupCreate.run
  let tasks ← fetchConsumerTasks serde consumerName
  ExceptT.lift (startWorkflows tasks)

end Flows

/- The shared state, and everything that took effect, in order. -/

/-- The last entry the group has been given, and the entries that are not acknowledged. -/
structure Group where
  lastDelivered : Nat
  pending : List (Nat × String)

inductive Event where
  | fetched (client : Nat) (ids : List String)
  | updated (client : Nat) (ids : List String) (update : ProcessTrackerUpdateInternal)
  | appended (client : Nat) (entry : Entry FieldValuePairs)
  | groupCreated (client : Nat) (lastId : Nat)
  | delivered (client : Nat) (entry : Entry FieldValuePairs)
  | acknowledged (client : Nat) (ids : List Nat)
  | started (client : Nat) (process : ProcessTracker)

def Event.client : Event → Nat
  | .fetched p _ | .updated p _ _ | .appended p _ | .groupCreated p _ | .delivered p _
  | .acknowledged p _ | .started p _ => p

structure World where
  table : Table
  stream : Stream FieldValuePairs
  group : Option Group
  log : List Event

namespace World

variable (w : World)

def start (table : Table) : World := ⟨table, .empty, none, []⟩

def note (ev : Event) : World := { w with log := w.log ++ [ev] }

def update (client : Nat) (ids : List String) (u : ProcessTrackerUpdateInternal) : World :=
  { w with table := w.table.updateByIds ids u, log := w.log ++ [.updated client ids u] }

def append (client : Nat) (gap : Nat) (fields : FieldValuePairs) : World :=
  { w with
    stream := w.stream.xadd gap fields
    log := w.log ++ [.appended client (w.stream.added gap fields)] }

/-- The group starts behind the last entry there is. -/
def createGroup (client : Nat) : World :=
  { w with group := some ⟨w.stream.lastId, []⟩, log := w.log ++ [.groupCreated client w.stream.lastId] }

def deliver (client : Nat) (consumer : String) (g : Group) (entry : Entry FieldValuePairs) :
    World :=
  { w with
    group := some ⟨entry.id, g.pending ++ [(entry.id, consumer)]⟩
    log := w.log ++ [.delivered client entry] }

def acknowledge (client : Nat) (ids : List Nat) : World :=
  { w with
    group := w.group.map fun g =>
      { g with pending := g.pending.filter fun x => !ids.contains x.1 }
    log := w.log ++ [.acknowledged client ids] }

end World

structure Choice where
  redis : Delivery := .answered
  database : Delivery := .answered
  failure : StorageError := .databaseError .others
  available : Bool := true
  gap : Nat := 0
  now : PrimitiveDateTime := 0
  uuid : String := ""

def exec (client : Nat) : (c : Command) → Choice → World → Reply c × World
  | .isRedisAvailable, o, w => (o.available, w)
  | .now, o, w => (o.now, w)
  | .newUuid, o, w => (o.uuid, w)
  | .findProcessesByTimeStatus lower upper status limit, o, w =>
    let found := w.table.findByTimeStatus lower upper status limit
    o.database.through o.failure w (found, w.note (.fetched client (found.map ProcessTracker.id)))
  | .updateProcessStatusByIds ids u, o, w =>
    if u.isEmpty then (.error (.databaseError .noFieldsToUpdate), w)
    else o.database.through o.failure w
      ((w.table.rows.filter fun row => ids.contains row.id).length, w.update client ids u)
  | .reinitializeLimboProcesses ids scheduleTime, o, w =>
    o.database.through o.failure w
      ((w.table.rows.filter fun row => row.status = .processStarted && ids.contains row.id).length,
        { w with table := w.table.reinitialize ids scheduleTime })
  | .updateById id u, o, w =>
    if u.isEmpty then (.error (.databaseError .noFieldsToUpdate), w)
    else match w.table.find id with
      | none => (.error (.databaseError .notFound), w)
      | some row => o.database.through o.failure w (u.apply row, w.update client [id] u)
  | .insertProcess new, o, w =>
    match w.table.insert new with
    | none => (.error (.databaseError .uniqueViolation), w)
    | some table => o.database.through o.failure w (new.row, { w with table := table })
  | .xadd fields, o, w => o.redis.through () w ((), w.append client o.gap fields)
  | .xgroupCreate, o, w =>
    match w.group with
    | none => o.redis.through () w ((), w.createGroup client)
    | some _ => (.error (), w)
  | .xreadgroup consumer, o, w =>
    match w.group with
    | none => (.error .streamReadFailed, w)
    | some g =>
      match (w.stream.xread g.lastDelivered 1).head? with
      | none =>
        (match o.redis with
          | .answered => .error .streamEmptyOrNotAvailable
          | _ => .error .streamReadFailed, w)
      | some entry => o.redis.through .streamReadFailed w ([entry], w.deliver client consumer g entry)
  | .xack ids, o, w =>
    o.redis.through () w (((w.group.map Group.pending).getD []).countP fun x => ids.contains x.1,
      w.acknowledge client ids)
  | .xdel ids, o, w =>
    let x := w.stream.xdel ids
    o.redis.through () w (x.1, { w with stream := x.2 })
  | .startWorkflow process, _, w => ((), w.note (.started client process))

inductive Call where
  | producerFlow
  | divideAndAppendTasks (flow : SchedulerFlow) (tasks : List ProcessTracker)
  | consumerOperations
  | retryProcess (this : ProcessTracker) (scheduleTime : PrimitiveDateTime)
  | resetProcess (this : ProcessTracker) (scheduleTime : PrimitiveDateTime)
  | finishProcessWithBusinessStatus (this : ProcessTracker) (businessStatus : String)
  | updateProcess (this : ProcessTracker) (process : ProcessTrackerUpdate)
  | consumerErrorHandler (process : ProcessTracker)
  | createTask (entry : ProcessTrackerNew)

inductive Result where
  | flow (r : Except ProcessTrackerError Unit)
  | stored (r : Except StorageError Unit)
  | row (r : Except StorageError ProcessTracker)

def Call.program (serde : Serde) (conf : SchedulerSettings) : Call → SchedulerTask Result
  | .producerFlow => (Scheduler.producerFlow serde conf).run.bind (.done ∘ .flow)
  | .divideAndAppendTasks flow tasks =>
    (Scheduler.divideAndAppendTasks serde conf flow tasks).run.bind (.done ∘ .flow)
  | .consumerOperations => (Scheduler.consumerOperations serde).run.bind (.done ∘ .flow)
  | .retryProcess this scheduleTime =>
    (Scheduler.retryProcess this scheduleTime).run.bind (.done ∘ .stored)
  | .resetProcess this scheduleTime =>
    (Scheduler.resetProcess this scheduleTime).run.bind (.done ∘ .stored)
  | .finishProcessWithBusinessStatus this businessStatus =>
    (Scheduler.finishProcessWithBusinessStatus this businessStatus).run.bind (.done ∘ .stored)
  | .updateProcess this process =>
    (Scheduler.updateProcess this process).run.bind (.done ∘ .row)
  | .consumerErrorHandler process =>
    (Scheduler.consumerErrorHandler process).run.bind (.done ∘ .flow)
  | .createTask entry => (Scheduler.createTask entry).run.bind (.done ∘ .stored)

/-- Any number of schedulers over one table and one stream, and of workflows that update
their tasks. Nothing changes by itself. -/
def machine (serde : Serde) (conf : SchedulerSettings) :
    Machine Command Reply World Choice Empty Call Result where
  exec := exec
  env := nofun
  program := Call.program serde conf

def dueWorld : World := .start ⟨[dueTask], List.nodup_singleton _⟩

end Mercado.Scheduler
