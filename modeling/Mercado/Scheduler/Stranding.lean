import Mercado.Scheduler.Flows

/-! What the producer leaves behind when steps of it fail: which of its tasks are in the
stream, and which of them a later producer run can fetch again. -/
namespace Mercado.Scheduler
open Async Redis

/-- How the steps on one batch go: the clock, the status update, the connection, the
XADD, and the clock of the compensating update, which succeeds. -/
structure Fate where
  time : PrimitiveDateTime
  update : Delivery
  failure : StorageError
  available : Bool
  append : Delivery
  gap : Nat
  later : PrimitiveDateTime

section Plan

variable (serde : Serde)

abbrev Plan := List (ProcessTrackerBatch × Fate)

def choices (x : ProcessTrackerBatch × Fate) : List Choice :=
  { now := x.2.time } :: { database := x.2.update, failure := x.2.failure } ::
    match x.2.update, x.1.toRedisFieldValuePairs serde with
    | .answered, .ok _ =>
      { available := x.2.available } ::
        ((if x.2.available then [{ redis := x.2.append, gap := x.2.gap }] else []) ++
          if x.2.available ∧ x.2.append = .answered then []
          else [{ now := x.2.later }, { database := .answered }])
    | _, _ => []

def moves (x : ProcessTrackerBatch × Fate) : List String :=
  if x.2.update = .lost then [] else x.1.trackers.map ProcessTracker.id

def appended (x : ProcessTrackerBatch × Fate) : Option FieldValuePairs :=
  match x.2.update, x.1.toRedisFieldValuePairs serde with
  | .answered, .ok fields => if x.2.available ∧ x.2.append ≠ .lost then some fields else none
  | _, _ => none

structure Leaves (plan : Plan) (w w' : World) : Prop where
  status : ∀ id, w'.table.status id = (w.table.status id).map fun s =>
    if id ∈ plan.flatMap moves then .processing else s
  stream : ∃ more, w'.stream.entries = w.stream.entries ++ more ∧
    more.map Entry.fields = plan.filterMap (appended serde) ∧
    ∀ e ∈ more, w.stream.lastId < e.id
  later : w.stream.lastId ≤ w'.stream.lastId

variable {serde} {w w' : World}

theorem Leaves.nothing : Leaves serde [] w w where
  status := by
    intro id
    cases w.table.status id <;> rfl
  stream := ⟨[], (List.append_nil _).symm, rfl, nofun⟩
  later := Nat.le_refl _

theorem Leaves.append {xs ys : Plan} {m : World} (first : Leaves serde xs w m)
    (second : Leaves serde ys m w') : Leaves serde (xs ++ ys) w w' := by
  obtain ⟨early, entries, fieldsEarly, aboveEarly⟩ := first.stream
  obtain ⟨late, entries', fieldsLate, aboveLate⟩ := second.stream
  refine ⟨?_, ⟨early ++ late, ?_, ?_, ?_⟩, Nat.le_trans first.later second.later⟩
  · intro id
    rw [second.status, first.status, Option.map_map]
    refine congrArg (Option.map · _) (funext fun s => ?_)
    rw [Function.comp_apply, List.flatMap_append]
    by_cases mx : id ∈ xs.flatMap moves <;> by_cases my : id ∈ ys.flatMap moves <;> simp [mx, my]
  · rw [entries', entries, List.append_assoc]
  · rw [List.map_append, fieldsEarly, fieldsLate, List.filterMap_append]
  · intro e he
    rcases List.mem_append.mp he with he | he
    · exact aboveEarly e he
    · exact Nat.lt_of_le_of_lt first.later (aboveLate e he)

theorem Leaves.single {x : ProcessTrackerBatch × Fate}
    (status : ∀ id, w'.table.status id =
      (w.table.status id).map fun s => if id ∈ moves x then .processing else s)
    (stream : (appended serde x = none ∧ w'.stream = w.stream) ∨
      ∃ gap fields, appended serde x = some fields ∧ w'.stream = w.stream.xadd gap fields) :
    Leaves serde [x] w w' := by
  have single : [x].flatMap moves = moves x := List.flatMap_singleton ..
  rcases stream with ⟨nothing, same⟩ | ⟨gap, fields, added, same⟩
  · refine ⟨single ▸ status, ⟨[], ?_, ?_, nofun⟩, Nat.le_of_eq (congrArg Stream.lastId same.symm)⟩
    · rw [same, List.append_nil]
    · rw [List.filterMap_cons, nothing]
      rfl
  · refine ⟨single ▸ status, ⟨[w.stream.added gap fields], ?_, ?_, ?_⟩, ?_⟩
    · rw [same, Stream.xadd_entries]
    · rw [List.filterMap_cons, added]
      rfl
    · intro e he
      cases List.mem_singleton.mp he
      simp only [Stream.added]
      omega
    · rw [same, Stream.xadd_lastId]
      omega

end Plan

section Runs

variable {serde : Serde} {client : Nat}

def processing (now : PrimitiveDateTime) : ProcessTrackerUpdateInternal :=
  ProcessTrackerUpdate.toInternal now (.statusUpdate .processing none)

theorem update_status (w : World) (ids : List String) (now : PrimitiveDateTime) (id : String) :
    (w.update client ids (processing now)).table.status id =
      (w.table.status id).map fun s => if id ∈ ids then .processing else s :=
  w.table.status_updateByIds ids (processing now) id

/-- The compensating update sets the status that is already set. -/
theorem update_again (w : World) (ids : List String) (now later : PrimitiveDateTime) (id : String) :
    ((w.update client ids (processing now)).update client ids (processing later)).table.status id =
      (w.update client ids (processing now)).table.status id := by
  rw [update_status, update_status, Option.map_map]
  refine congrArg (Option.map · _) (funext fun s => ?_)
  rw [Function.comp_apply]
  split <;> rfl

theorem updateStatusAndAppend_replay (x : ProcessTrackerBatch × Fate) (w : World) :
    ∃ r w', Task.replay (exec client) (updateStatusAndAppend serde .producer x.1).run
      (choices serde x) w = some (r, w') ∧ Leaves serde [x] w w' := by
  obtain ⟨batch, time, update, failure, available, append, gap, later⟩ := x
  let ids := batch.trackers.map ProcessTracker.id
  have moved : ∀ id, (w.update client ids (processing time)).table.status id = _ :=
    update_status w ids time
  have again : ∀ id, ((w.update client ids (processing time)).update client ids
      (processing later)).table.status id = _ :=
    fun id => (update_again w ids time later id).trans (moved id)
  cases update with
  | lost =>
    refine ⟨_, w, rfl, .single (fun id => ?_) (.inl ⟨rfl, rfl⟩)⟩
    cases w.table.status id <;> rfl
  | unanswered => exact ⟨_, _, rfl, .single moved (.inl ⟨rfl, rfl⟩)⟩
  | answered =>
    cases pairs : batch.toRedisFieldValuePairs serde with
    | error e =>
      simp only [choices, updateStatusAndAppend, pairs]
      refine ⟨_, _, rfl, .single moved (.inl ⟨?_, rfl⟩)⟩
      simp only [appended, pairs]
    | ok fields =>
      simp only [choices, updateStatusAndAppend, pairs]
      cases available with
      | false =>
        refine ⟨_, _, rfl, .single again (.inl ⟨?_, rfl⟩)⟩
        simp [appended, pairs]
      | true =>
        cases append with
        | lost =>
          refine ⟨_, _, rfl, .single again (.inl ⟨?_, rfl⟩)⟩
          simp [appended, pairs]
        | unanswered =>
          refine ⟨_, _, rfl, .single again (.inr ⟨gap, fields, ?_, rfl⟩)⟩
          simp [appended, pairs]
        | answered =>
          refine ⟨_, _, rfl, .single moved (.inr ⟨gap, fields, ?_, rfl⟩)⟩
          simp [appended, pairs]

theorem appendBatches_replay (plan : Plan) (w : World) :
    ∃ w', Task.replay (exec client) (appendBatches serde .producer (plan.map Prod.fst)).run
      (plan.flatMap (choices serde)) w = some (.ok (), w') ∧ Leaves serde plan w w' := by
  induction plan generalizing w with
  | nil => exact ⟨w, rfl, .nothing⟩
  | cons x xs ih =>
    obtain ⟨r, m, ran, leaves⟩ := updateStatusAndAppend_replay x w
    obtain ⟨w', rest, leaves'⟩ := ih m
    refine ⟨w', ?_, leaves.append leaves'⟩
    rw [List.flatMap_cons]
    exact (Task.replay_tryBind (Task.replay_lift ran)).trans rest

/-- After the run the task is in an entry that the run has appended, or its status is one
that the producer fetches. -/
def Recoverable (serde : Serde) (w w' : World) (task : ProcessTracker) : Prop :=
  (∃ e ∈ w'.stream.entries, w.stream.lastId < e.id ∧ CarriesTask serde e.fields task.id) ∨
    w'.table.status task.id = some .new ∨ w'.table.status task.id = some .pending

def planOf (conf : SchedulerSettings) (tasks : List ProcessTracker) (now : PrimitiveDateTime)
    (batchId : String) (fates : Nat → Fate) : Plan :=
  ((divideIntoBatches conf.producer.batchSize tasks now batchId conf).getD []).zipIdx.map
    fun x => (x.1, fates x.2)

theorem planOf_batches (conf : SchedulerSettings) (tasks : List ProcessTracker)
    (now : PrimitiveDateTime) (batchId : String) (fates : Nat → Fate) :
    (planOf conf tasks now batchId fates).map Prod.fst =
      (divideIntoBatches conf.producer.batchSize tasks now batchId conf).getD [] := by
  rw [planOf, List.map_map]
  exact List.zipIdx_map_fst ..

theorem planOf_tasks {conf : SchedulerSettings} {tasks : List ProcessTracker}
    {now : PrimitiveDateTime} {batchId : String} {fates : Nat → Fate}
    {x : ProcessTrackerBatch × Fate} (hx : x ∈ planOf conf tasks now batchId fates)
    {task : ProcessTracker} (ht : task ∈ x.1.trackers) : task ∈ tasks := by
  have batch : x.1 ∈ (planOf conf tasks now batchId fates).map Prod.fst := List.mem_map_of_mem hx
  rw [planOf_batches] at batch
  cases divided : divideIntoBatches conf.producer.batchSize tasks now batchId conf with
  | none =>
    rw [divided] at batch
    cases batch
  | some batches =>
    rw [divided] at batch
    exact divideIntoBatches_trackers divided batch ht

theorem divideAndAppendTasks_replay (conf : SchedulerSettings) (tasks : List ProcessTracker)
    (now : PrimitiveDateTime) (batchId : String) (fates : Nat → Fate) (w : World) :
    ∃ r w', Task.replay (exec client) (divideAndAppendTasks serde conf .producer tasks).run
      ({ now := now } :: { uuid := batchId } ::
        (planOf conf tasks now batchId fates).flatMap (choices serde)) w = some (r, w') ∧
      Leaves serde (planOf conf tasks now batchId fates) w w' := by
  have batches := planOf_batches conf tasks now batchId fates
  -- the clock and the identifier are read first
  have timed : Task.replay (exec client) (ExceptT.lift (call .now) : Flow PrimitiveDateTime).run
      [{ now := now }] w = some (.ok now, w) := Task.replay_lift rfl
  have named : Task.replay (exec client) (ExceptT.lift (call .newUuid) : Flow String).run
      [{ uuid := batchId }] w = some (.ok batchId, w) := Task.replay_lift rfl
  rw [divideAndAppendTasks]
  cases divided : divideIntoBatches conf.producer.batchSize tasks now batchId conf with
  | none =>
    rw [divided] at batches
    rw [List.map_eq_nil_iff.mp batches]
    refine ⟨.error .panicked, w, ?_, .nothing⟩
    refine (Task.replay_tryBind timed).trans ((Task.replay_tryBind named).trans ?_)
    simp only [divided]
    rfl
  | some found =>
    rw [divided, Option.getD_some] at batches
    obtain ⟨w', ran, leaves⟩ := appendBatches_replay (planOf conf tasks now batchId fates) w
    refine ⟨.ok (), w', ?_, leaves⟩
    refine (Task.replay_tryBind timed).trans ((Task.replay_tryBind named).trans ?_)
    simp only [divided]
    exact batches ▸ ran

theorem appended_written {x : ProcessTrackerBatch × Fate} {fields : FieldValuePairs}
    (h : appended serde x = some fields) : x.1.toRedisFieldValuePairs serde = .ok fields := by
  rw [appended] at h
  split at h
  · rename_i written
    split at h
    · cases h
      exact written
    · cases h
  · cases h

theorem Leaves.appended_iff (tells : serde.TellsIds) {plan : Plan} {w w' : World}
    (leaves : Leaves serde plan w w') (id : String) :
    (∃ e ∈ w'.stream.entries, w.stream.lastId < e.id ∧ CarriesTask serde e.fields id) ↔
      ∃ y ∈ plan, (appended serde y).isSome ∧ id ∈ y.1.trackers.map ProcessTracker.id := by
  obtain ⟨more, entries, fields, above⟩ := leaves.stream
  constructor
  · rintro ⟨e, he, new, carries⟩
    rw [entries] at he
    rcases List.mem_append.mp he with old | he
    · exact absurd (w.stream.issued e old).2 (Nat.not_le_of_lt new)
    · have written : e.fields ∈ plan.filterMap (appended serde) :=
        fields ▸ List.mem_map_of_mem he
      obtain ⟨y, hy, added⟩ := List.mem_filterMap.mp written
      refine ⟨y, hy, Option.isSome_of_eq_some added, ?_⟩
      exact (carriesTask_batch tells (appended_written added) id).mp carries
  · rintro ⟨y, hy, added, mem⟩
    obtain ⟨text, added⟩ := Option.isSome_iff_exists.mp added
    have written : text ∈ more.map Entry.fields :=
      fields ▸ List.mem_filterMap.mpr ⟨y, hy, added⟩
    obtain ⟨e, he, rfl⟩ := List.mem_map.mp written
    refine ⟨e, entries ▸ List.mem_append_right _ he, above e he, ?_⟩
    exact (carriesTask_batch tells (appended_written added) id).mpr mem

theorem Leaves.fetchable_iff {plan : Plan} {w w' : World} (leaves : Leaves serde plan w w')
    {id : String} (fetched : w.table.status id = some .new ∨ w.table.status id = some .pending) :
    (w'.table.status id = some .new ∨ w'.table.status id = some .pending) ↔
      id ∉ plan.flatMap moves := by
  rw [leaves.status]
  by_cases moved : id ∈ plan.flatMap moves <;> rcases fetched with h | h <;> simp [h, moved]

/-- The producer strands no task exactly when every batch whose trackers got their new status
has also been appended, or its trackers are in other batches that have been. -/
theorem producer_recoverable (client : Nat) (tells : serde.TellsIds) (conf : SchedulerSettings)
    {tasks : List ProcessTracker} {w : World}
    (fetched : ∀ task ∈ tasks,
      w.table.status task.id = some .new ∨ w.table.status task.id = some .pending)
    (now : PrimitiveDateTime) (batchId : String) (fates : Nat → Fate) :
    ∃ r w', Task.replay (exec client) (divideAndAppendTasks serde conf .producer tasks).run
      ({ now := now } :: { uuid := batchId } ::
        (planOf conf tasks now batchId fates).flatMap (choices serde)) w = some (r, w') ∧
      ((∀ task ∈ tasks, Recoverable serde w w' task) ↔
        ∀ x ∈ planOf conf tasks now batchId fates, x.2.update ≠ .lost → ∀ task ∈ x.1.trackers,
          ∃ y ∈ planOf conf tasks now batchId fates, (appended serde y).isSome ∧
            task.id ∈ y.1.trackers.map ProcessTracker.id) := by
  obtain ⟨r, w', ran, leaves⟩ := divideAndAppendTasks_replay conf tasks now batchId fates w
  refine ⟨r, w', ran, ?_, ?_⟩
  · intro recoverable x hx effective task ht
    have mem := planOf_tasks hx ht
    rcases recoverable task mem with stream | status
    · exact (leaves.appended_iff tells task.id).mp stream
    · refine absurd (List.mem_flatMap.mpr ⟨x, hx, ?_⟩)
        ((leaves.fetchable_iff (fetched task mem)).mp status)
      rw [moves, if_neg effective]
      exact List.mem_map_of_mem ht
  · intro condition task mem
    by_cases moved : task.id ∈ (planOf conf tasks now batchId fates).flatMap moves
    · obtain ⟨x, hx, moved⟩ := List.mem_flatMap.mp moved
      rw [moves] at moved
      split at moved
      · cases moved
      · rename_i effective
        obtain ⟨twin, ht, same⟩ := List.mem_map.mp moved
        have stream := condition x hx effective twin ht
        exact .inl ((leaves.appended_iff tells task.id).mpr (same ▸ stream))
    · exact .inr ((leaves.fetchable_iff (fetched task mem)).mpr moved)

end Runs

/-- Of two batches of one task each, the first is appended, and the status update of the second is
lost: its task is due as before. -/
theorem producer_recoverable_appended :
    let webhook : ProcessTracker := { dueTask with id := "webhook" }
    let w : World := .start ⟨[dueTask, webhook], by decide⟩
    let single := { sampleSettings with producer := { sampleSettings.producer with batchSize := 1 } }
    ∃ r w', Task.replay (exec 0)
      (divideAndAppendTasks dueTaskSerde single .producer [dueTask, webhook]).run
      [{ now := 0 }, { uuid := "batch" }, { now := 0 }, { database := .answered },
        { available := true }, { redis := .answered }, { now := 0 }, { database := .lost }] w =
          some (r, w') ∧
      w'.table.status "sync" = some .processing ∧ w'.table.status "webhook" = some .new ∧
      ∀ task ∈ [dueTask, webhook], Recoverable dueTaskSerde w w' task := by
  intro webhook w single
  have fetched : ∀ task ∈ [dueTask, webhook], w.table.status task.id = some .new ∨
      w.table.status task.id = some .pending := by
    simp only [List.mem_cons, List.not_mem_nil, or_false]
    rintro task (rfl | rfl) <;> exact .inl rfl
  let fates : Nat → Fate
    | 0 => ⟨0, .answered, .databaseError .others, true, .answered, 0, 0⟩
    | _ => ⟨0, .lost, .databaseError .others, true, .answered, 0, 0⟩
  obtain ⟨r, w', ran, condition⟩ := producer_recoverable 0 dueTaskSerde_tellsIds single fetched 0
    "batch" fates
  have recoverable : ∀ task ∈ [dueTask, webhook], Recoverable dueTaskSerde w w' task := by
    refine condition.mpr ?_
    intro x mem effective task ht
    rcases List.mem_cons.mp mem with rfl | mem
    · exact ⟨_, List.mem_cons_self, rfl, List.mem_map_of_mem ht⟩
    · cases List.mem_singleton.mp mem
      exact absurd rfl effective
  obtain ⟨rfl, rfl⟩ := Prod.mk.inj (Option.some.inj ran)
  exact ⟨_, _, rfl, rfl, rfl, recoverable⟩

/-- Redis loses the XADD. The compensating update sets the status that the task already
has, and no producer run fetches the task again. -/
theorem producer_strands :
    ∃ w', Task.replay (exec 0)
      (divideAndAppendTasks dueTaskSerde sampleSettings .producer [dueTask]).run
      [{ now := 0 }, { uuid := "batch" }, { now := 0 }, { database := .answered },
        { available := true }, { redis := .lost }, { now := 1 }, { database := .answered }]
      dueWorld = some (.ok (), w') ∧
      dueWorld.table.status dueTask.id = some .new ∧
      w'.table.status dueTask.id = some .processing ∧ w'.stream.entries = [] ∧
      ¬ Recoverable dueTaskSerde dueWorld w' dueTask := by
  refine ⟨_, rfl, rfl, rfl, rfl, ?_⟩
  rintro (⟨e, mem, _⟩ | status | status)
  · cases mem
  · cases status
  · cases status

end Mercado.Scheduler
