import Mercado.Scheduler.Flows

/-! Which commands the flows issue, whatever the answers are. -/
namespace Mercado.Scheduler
open Async Redis

section Append

variable (serde : Serde) (tasks : List ProcessTracker)

/-- What an append of some tasks does: its updates name these tasks and make them
`Processing`, and what it appends are batches of them. -/
def appendCommand : Command → Prop
  | .isRedisAvailable | .now | .newUuid => True
  | .reinitializeLimboProcesses ids _ => ∀ id ∈ ids, id ∈ tasks.map ProcessTracker.id
  | .updateProcessStatusByIds ids u =>
    (∃ now, u = ProcessTrackerUpdate.toInternal now (.statusUpdate .processing none)) ∧
      ∀ id ∈ ids, id ∈ tasks.map ProcessTracker.id
  | .xadd fields => ∃ batch : ProcessTrackerBatch,
    batch.toRedisFieldValuePairs serde = .ok fields ∧ ∀ task ∈ batch.trackers, task ∈ tasks
  | _ => False

end Append

variable {serde : Serde} {conf : SchedulerSettings} {tasks : List ProcessTracker}
  {A : Command → Prop}

theorem getRedisConn_every (ok : A .isRedisAvailable) : getRedisConn.run.every A := by
  refine Task.every_tryBind (Task.every_lift (Task.every_call ok)) fun available => ?_
  cases available <;> trivial

theorem updateStatusByIds_every {ids : List String} {u : ProcessTrackerUpdate} (clock : A .now)
    (ok : ∀ now, A (.updateProcessStatusByIds ids (u.toInternal now))) :
    (processTrackerUpdateProcessStatusByIds ids u).every A :=
  Task.every_bind (Task.every_call clock) fun now => Task.every_call (ok now)

theorem streamAppendEntry_every {fields : FieldValuePairs} (connection : A .isRedisAvailable)
    (ok : A (.xadd fields)) : (streamAppendEntry fields).run.every A :=
  Task.every_tryBind (getRedisConn_every connection) fun _ =>
    Task.every_changeContext (Task.every_call ok)

theorem updateStatus_every (way : SchedulerFlow) {batch : ProcessTrackerBatch}
    (within : ∀ task ∈ batch.trackers, task ∈ tasks) :
    (updateStatus way (batch.trackers.map ProcessTracker.id)).run.every
      (appendCommand serde tasks) := by
  have named : ∀ id ∈ batch.trackers.map ProcessTracker.id, id ∈ tasks.map ProcessTracker.id := by
    intro id mem
    obtain ⟨task, ht, rfl⟩ := List.mem_map.mp mem
    exact List.mem_map_of_mem (within task ht)
  cases way with
  | producer =>
    refine Task.every_tryBind (Task.every_changeContext (updateStatusByIds_every trivial ?_)) ?_
    · exact fun now => ⟨⟨now, rfl⟩, named⟩
    · exact fun _ => trivial
  | cleaner =>
    refine Task.every_tryBind (Task.every_lift (Task.every_call trivial)) fun now => ?_
    exact Task.every_tryBind (Task.every_changeContext (Task.every_call named)) fun _ => trivial
  | consumer => trivial

theorem updateStatusAndAppend_every (way : SchedulerFlow) {batch : ProcessTrackerBatch}
    (within : ∀ task ∈ batch.trackers, task ∈ tasks) :
    (updateStatusAndAppend serde way batch).run.every (appendCommand serde tasks) := by
  refine Task.every_tryBind (updateStatus_every way within) fun _ => ?_
  rw [Task.run_bind]
  cases written : batch.toRedisFieldValuePairs serde with
  | error e => trivial
  | ok fields =>
    refine Task.every_tryBind (Task.every_lift
      (streamAppendEntry_every trivial ⟨batch, written, within⟩)) fun r => ?_
    cases r with
    | ok => trivial
    | error e =>
      have named : ∀ id ∈ batch.trackers.map ProcessTracker.id,
          id ∈ tasks.map ProcessTracker.id := by
        intro id mem
        obtain ⟨task, ht, rfl⟩ := List.mem_map.mp mem
        exact List.mem_map_of_mem (within task ht)
      exact Task.every_tryBind (Task.every_lift (updateStatusByIds_every trivial
        fun now => ⟨⟨now, rfl⟩, named⟩)) fun _ => trivial

theorem appendBatches_every (way : SchedulerFlow) {batches : List ProcessTrackerBatch}
    (within : ∀ batch ∈ batches, ∀ task ∈ batch.trackers, task ∈ tasks) :
    (appendBatches serde way batches).run.every (appendCommand serde tasks) := by
  induction batches with
  | nil => trivial
  | cons batch batches ih =>
    refine Task.every_tryBind (Task.every_lift
      (updateStatusAndAppend_every way (within batch List.mem_cons_self))) fun _ => ?_
    exact ih fun b mem => within b (List.mem_cons_of_mem _ mem)

theorem divideAndAppendTasks_every (way : SchedulerFlow) :
    (divideAndAppendTasks serde conf way tasks).run.every (appendCommand serde tasks) := by
  refine Task.every_tryBind (Task.every_lift (Task.every_call trivial)) fun now => ?_
  refine Task.every_tryBind (Task.every_lift (Task.every_call trivial)) fun batchId => ?_
  cases divided : divideIntoBatches conf.producer.batchSize tasks now batchId conf with
  | none =>
    simp only
    trivial
  | some batches =>
    simp only
    exact appendBatches_every way fun batch mem task ht =>
      divideIntoBatches_trackers divided mem ht

def consumerCommand : Command → Prop
  | .isRedisAvailable | .now | .newUuid | .xgroupCreate | .xreadgroup _ | .xack _ | .xdel _
  | .startWorkflow _ => True
  | .updateProcessStatusByIds _ u =>
    ∃ now, u = ProcessTrackerUpdate.toInternal now (.statusUpdate .processStarted none)
  | _ => False

theorem getBatches_every (consumer : String) :
    (getBatches serde consumer).run.every consumerCommand := by
  refine Task.every_tryBind (Task.every_lift (Task.every_call trivial)) fun r => ?_
  split
  · trivial
  · trivial
  · rename_i entries
    refine Task.every_tryBind trivial fun batches => ?_
    refine Task.every_tryBind (Task.every_changeContext (Task.every_call trivial)) fun _ => ?_
    exact Task.every_tryBind (Task.every_changeContext (Task.every_call trivial)) fun _ => trivial

theorem fetchConsumerTasks_every (consumer : String) :
    (fetchConsumerTasks serde consumer).run.every consumerCommand := by
  refine Task.every_tryBind (Task.every_changeContext (getRedisConn_every trivial)) fun _ => ?_
  refine Task.every_tryBind (getBatches_every consumer) fun batches => ?_
  split
  · trivial
  · exact Task.every_tryBind (Task.every_changeContext (updateStatusByIds_every trivial
      fun now => ⟨now, rfl⟩)) fun _ => trivial

theorem consumerGroupCreate_every (connection : A .isRedisAvailable) (ok : A .xgroupCreate) :
    consumerGroupCreate.run.every A :=
  Task.every_tryBind (getRedisConn_every connection) fun _ =>
    Task.every_changeContext (Task.every_call ok)

theorem startWorkflows_every (tasks : List ProcessTracker) :
    (startWorkflows tasks).every consumerCommand := by
  induction tasks with
  | nil => trivial
  | cons task tasks ih => exact Task.every_bind (Task.every_call trivial) fun _ => ih

theorem updateProcess_every {this : ProcessTracker} {u : ProcessTrackerUpdate} (clock : A .now)
    (ok : ∀ now, A (.updateById this.id (u.toInternal now))) :
    (updateProcess this u).run.every A :=
  Task.every_bind (Task.every_call clock) fun now =>
    Task.every_bind (Task.every_call (ok now)) fun _ => trivial

theorem consumerOperations_every : (consumerOperations serde).run.every consumerCommand := by
  refine Task.every_tryBind (Task.every_lift (Task.every_call trivial)) fun uuid => ?_
  refine Task.every_tryBind (Task.every_lift (consumerGroupCreate_every trivial trivial)) fun _ => ?_
  refine Task.every_tryBind (fetchConsumerTasks_every _) fun tasks => ?_
  exact Task.every_lift (startWorkflows_every tasks)

end Mercado.Scheduler
