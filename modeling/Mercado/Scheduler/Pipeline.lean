import Mathlib.Data.List.Flatten
import Mercado.Scheduler.Commands
import Mercado.Scheduler.Delivery
import Mercado.Scheduler.RoundTrip
import Mercado.Scheduler.Stranding
import Mercado.Scheduler.Undisturbed

/-! The scheduler when nothing fails: one run of the producer, and then runs of consumers one
after the other. -/
namespace Mercado.Scheduler
open Async Redis Results

/-- Redis and the database answer, and the clock says dates of `time`. -/
structure FaultFree (choose : Command → World → Choice) : Prop where
  redis : ∀ c w, (choose c w).redis = .answered
  database : ∀ c w, (choose c w).database = .answered
  available : ∀ c w, (choose c w).available = true
  clock : ∀ c w, PrimitiveDateTime.valid (choose c w).now = true

def undelivered (w : World) : List (Entry FieldValuePairs) :=
  match w.group with
  | none => []
  | some g => w.stream.entries.filter fun e => decide (g.lastDelivered < e.id)

def startedIds (log : List Event) : List String :=
  log.filterMap fun
    | .started _ process => some process.id
    | _ => none

@[simp] theorem startedIds_append (log more : List Event) :
    startedIds (log ++ more) = startedIds log ++ startedIds more := List.filterMap_append

section Consumers

variable (serde : Serde)

def startable (fields : FieldValuePairs) : List String :=
  match ProcessTrackerBatch.fromRedisStreamEntry serde (readFields fields) with
  | .error _ => []
  | .ok batch => (validTrackers [batch]).map ProcessTracker.id

def Readable (fields : FieldValuePairs) : Prop :=
  ∃ batch, ProcessTrackerBatch.fromRedisStreamEntry serde (readFields fields) = .ok batch

structure Starts (es : List (Entry FieldValuePairs)) (w w' : World) : Prop where
  queue : undelivered w = es ++ undelivered w'
  started : startedIds w'.log = startedIds w.log ++ es.flatMap fun e => startable serde e.fields
  status : ∀ id, w'.table.status id = (w.table.status id).map fun s =>
    if id ∈ es.flatMap fun e => startable serde e.fields then .processStarted else s

variable {serde} {choose : Command → World → Choice} {p : Nat} {w w' u : World}

theorem Starts.nothing (queue : undelivered w' = undelivered w)
    (started : startedIds w'.log = startedIds w.log) (table : w'.table = w.table) :
    Starts serde [] w w' where
  queue := queue.symm
  started := started.trans (List.append_nil _).symm
  status := by
    intro id
    rw [table]
    cases w.table.status id <;> rfl

theorem Starts.append {es fs : List (Entry FieldValuePairs)} (first : Starts serde es w w')
    (second : Starts serde fs w' u) : Starts serde (es ++ fs) w u where
  queue := by rw [first.queue, second.queue, List.append_assoc]
  started := by rw [second.started, first.started, List.flatMap_append, List.append_assoc]
  status := by
    intro id
    rw [second.status, first.status, Option.map_map]
    refine congrArg (Option.map · _) (funext fun s => ?_)
    rw [Function.comp_apply, List.flatMap_append]
    by_cases early : id ∈ es.flatMap fun e => startable serde e.fields <;>
      by_cases late : id ∈ fs.flatMap fun e => startable serde e.fields <;> simp [early, late]

abbrev carryOut (choose : Command → World → Choice) (p : Nat) (c : Command) (w : World) :
    Reply c × World := exec p c (choose c w) w

theorem getRedisConn_finish (calm : FaultFree choose) (w : World) :
    getRedisConn.run.finish (carryOut choose p) w = (.ok (), w) := by
  rw [getRedisConn, Task.finish_tryBind, Task.finish_lift, Task.finish_call]
  simp only [exec, calm.available, if_true, Task.finish_pure]

theorem updateStatus_finish (calm : FaultFree choose) (ids : List String)
    (status : ProcessTrackerStatus) (w : World) :
    ∃ n now, (processTrackerUpdateProcessStatusByIds ids (.statusUpdate status none)).finish
        (carryOut choose p) w =
      (.ok n, w.update p ids (ProcessTrackerUpdate.toInternal now (.statusUpdate status none))) := by
  have sets : ∀ now, (ProcessTrackerUpdate.toInternal now
      (.statusUpdate status none)).isEmpty = false := by
    intro now
    simp [ProcessTrackerUpdateInternal.isEmpty, ProcessTrackerUpdate.toInternal]
  refine ⟨(w.table.rows.filter fun row => ids.contains row.id).length, (choose .now w).now, ?_⟩
  simp only [processTrackerUpdateProcessStatusByIds, Task.call_bind, Task.finish_await,
    Task.finish_call, exec, sets, calm.database, Delivery.through, Bool.false_eq_true, if_false]

theorem consumerGroupCreate_finish (serde : Serde) (calm : FaultFree choose) (w : World) :
    ∃ r w', consumerGroupCreate.run.finish (carryOut choose p) w = (r, w') ∧
      Starts serde [] w w' ∧ ∃ g, w'.group = some g := by
  rw [consumerGroupCreate, Task.finish_tryBind, getRedisConn_finish calm]
  simp only [Task.finish_changeContext, Task.finish_call, exec]
  cases group : w.group with
  | some g => exact ⟨_, w, rfl, .nothing rfl rfl rfl, g, group⟩
  | none =>
    simp only [calm.redis, Delivery.through]
    refine ⟨_, _, rfl, .nothing ?_ ?_ rfl, _, rfl⟩
    · rw [undelivered, undelivered, group]
      simp only [World.createGroup]
      refine List.filter_eq_nil_iff.mpr fun e mem => ?_
      simp [(w.stream.issued e mem).2]
    · simp [World.createGroup, startedIds]

theorem startWorkflows_finish (tasks : List ProcessTracker) (w : World) :
    ∃ log, (startWorkflows tasks).finish (carryOut choose p) w = ((), { w with log := log }) ∧
      startedIds log = startedIds w.log ++ tasks.map ProcessTracker.id := by
  induction tasks generalizing w with
  | nil => exact ⟨w.log, rfl, (List.append_nil _).symm⟩
  | cons task tasks ih =>
    obtain ⟨log, ran, started⟩ := ih (w.note (.started p task))
    refine ⟨log, ran, started.trans ?_⟩
    simp [World.note, startedIds]

theorem above_next {s : Stream FieldValuePairs} {after : Nat} {e : Entry FieldValuePairs}
    {rest : List (Entry FieldValuePairs)}
    (queue : (s.entries.filter fun x => decide (after < x.id)) = e :: rest) :
    (s.entries.filter fun x => decide (e.id < x.id)) = rest := by
  have sorted := s.sorted.filter fun x => decide (after < x.id)
  rw [queue] at sorted
  have first : after < e.id := by
    have mem : e ∈ s.entries.filter fun x => decide (after < x.id) := queue ▸ List.mem_cons_self
    simpa using (List.mem_filter.mp mem).2
  have within : (s.entries.filter fun x => decide (e.id < x.id)) =
      (s.entries.filter fun x => decide (after < x.id)).filter fun x => decide (e.id < x.id) := by
    rw [List.filter_filter]
    refine List.filter_congr fun x _ => ?_
    by_cases above : e.id < x.id
    · simp [above, Nat.lt_trans first above]
    · simp [above]
  rw [within, queue, List.filter_cons_of_neg (by simp)]
  exact List.filter_eq_self.mpr fun x mem => decide_eq_true ((List.pairwise_cons.mp sorted).1 x mem)

theorem getBatches_finish (serde : Serde) (calm : FaultFree choose) (consumer : String) {w : World} {g : Group}
    (group : w.group = some g) :
    ∃ r w', (getBatches serde consumer).run.finish (carryOut choose p) w = (r, w') ∧
      undelivered w = (undelivered w).take 1 ++ undelivered w' ∧ w'.table = w.table ∧
      startedIds w'.log = startedIds w.log ∧
      r = match undelivered w with
        | [] => .ok []
        | e :: _ => (ProcessTrackerBatch.fromRedisStreamEntry serde (readFields e.fields)).map
          fun batch => [batch] := by
  have next : undelivered w = w.stream.entries.filter fun e => decide (g.lastDelivered < e.id) := by
    rw [undelivered, group]
  rw [getBatches, Task.finish_tryBind, Task.finish_lift, Task.finish_call]
  simp only [exec, group, Stream.xread, ← next]
  cases queue : undelivered w with
  | nil =>
    simp only [List.take_nil, List.head?_nil, calm.redis]
    exact ⟨_, w, rfl, queue.symm, rfl, rfl, rfl⟩
  | cons e rest =>
    simp only [List.take_succ_cons, List.take_zero, List.head?_cons, calm.redis, Delivery.through]
    have behind := above_next (next.symm.trans queue)
    rw [Task.finish_tryBind]
    cases decoded : ProcessTrackerBatch.fromRedisStreamEntry serde (readFields e.fields) with
    | error err =>
      simp only [List.mapM_cons, List.mapM_nil, decoded]
      refine ⟨_, _, rfl, congrArg (e :: ·) behind.symm, rfl, ?_, rfl⟩
      simp [World.deliver, startedIds]
    | ok batch =>
      simp only [List.mapM_cons, List.mapM_nil, decoded]
      let taken := (w.deliver p consumer g e).acknowledge p [e.id]
      refine ⟨.ok [batch], { taken with stream := (taken.stream.xdel [e.id]).2 }, ?_, ?_, rfl, ?_,
        rfl⟩
      · change Task.finish _ ((Task.changeContext _ (call (.xack [e.id])) >>= fun _ =>
          Task.changeContext _ (call (.xdel [e.id])) >>= fun _ => pure [batch]).run) _ = _
        simp only [Task.finish_tryBind, Task.finish_changeContext, Task.finish_call, exec, calm.redis,
          Delivery.through]
        rfl
      · have others : (w.stream.entries.filter fun x => ! [e.id].contains x.id).filter
            (fun x => decide (e.id < x.id)) = rest := by
          rw [List.filter_filter, ← behind]
          refine List.filter_congr fun x _ => ?_
          by_cases above : e.id < x.id
          · simp [above, Nat.ne_of_gt above]
          · simp [above]
        exact congrArg (e :: ·) others.symm
      · simp [taken, World.deliver, World.acknowledge, startedIds]

theorem fetchConsumerTasks_finish (serde : Serde) (calm : FaultFree choose) (consumer : String) {w : World}
    {g : Group} (group : w.group = some g) :
    let given := ((undelivered w).take 1).flatMap fun e => startable serde e.fields
    ∃ r w', (fetchConsumerTasks serde consumer).run.finish (carryOut choose p) w = (r, w') ∧
      undelivered w = (undelivered w).take 1 ++ undelivered w' ∧
      startedIds w'.log = startedIds w.log ∧
      (∀ id, w'.table.status id = (w.table.status id).map fun s =>
        if id ∈ given then .processStarted else s) ∧
      ((∃ tasks, r = .ok tasks ∧ tasks.map ProcessTracker.id = given) ∨
        (∃ err, r = .error err) ∧ given = [] ∧ ∃ e ∈ undelivered w, ¬ Readable serde e.fields) := by
  intro given
  obtain ⟨r, w', ran, left, table, silent, result⟩ := getBatches_finish (p := p) serde calm
    consumer group
  have unmoved : given = [] → ∀ id, w'.table.status id = (w.table.status id).map fun s =>
      if id ∈ given then .processStarted else s := by
    intro nothing id
    rw [table, nothing]
    cases w.table.status id <;> rfl
  rw [fetchConsumerTasks, Task.finish_tryBind, Task.finish_changeContext, getRedisConn_finish calm]
  simp only [Except.mapError]
  rw [Task.finish_tryBind, ran]
  cases queue : undelivered w with
  | nil =>
    rw [queue] at result left
    have nothing : given = [] := by simp only [given, queue, List.take_nil, List.flatMap_nil]
    subst result
    exact ⟨.ok [], w', rfl, left, silent, unmoved nothing, .inl ⟨[], rfl, nothing.symm⟩⟩
  | cons e rest =>
    rw [queue] at result left
    have first : given = startable serde e.fields := by
      simp only [given, queue, List.take_succ_cons, List.take_zero, List.flatMap_singleton]
    cases decoded : ProcessTrackerBatch.fromRedisStreamEntry serde (readFields e.fields) with
    | error err =>
      have nothing : given = [] := by rw [first, startable, decoded]
      simp only [decoded] at result
      subst result
      refine ⟨_, w', rfl, left, silent, unmoved nothing, .inr ⟨⟨err, rfl⟩, nothing, e,
        List.mem_cons_self, ?_⟩⟩
      rintro ⟨batch, readable⟩
      cases decoded.symm.trans readable
    | ok batch =>
      have tasks : given = (validTrackers [batch]).map ProcessTracker.id := by
        rw [first, startable, decoded]
      simp only [decoded] at result
      subst result
      obtain ⟨n, now, updated⟩ := updateStatus_finish (p := p) calm given .processStarted w'
      refine ⟨.ok ((validTrackers [batch]).map fun x => { x with status := .processStarted }),
        w'.update p given (ProcessTrackerUpdate.toInternal now (.statusUpdate .processStarted none)),
        ?_, left, ?_, ?_, .inl ⟨_, rfl, ?_⟩⟩
      · simp only [Except.map, List.isEmpty_cons, Bool.false_eq_true, if_false]
        rw [Task.finish_tryBind, Task.finish_changeContext, ← tasks, updated]
        rfl
      · simpa [World.update, startedIds] using silent
      · intro id
        rw [World.update, Table.status_updateByIds, table]
        rfl
      · rw [tasks, List.map_map]
        rfl

theorem consumerOperations_finish (serde : Serde) (calm : FaultFree choose) (w : World) :
    ∃ r w', (consumerOperations serde).run.finish (carryOut choose p) w = (r, w') ∧
      Starts serde ((undelivered w).take 1) w w' ∧
      ((∀ e ∈ undelivered w, Readable serde e.fields) → r = .ok ()) := by
  rw [consumerOperations, Task.finish_tryBind, Task.finish_lift, Task.finish_call]
  simp only [exec]
  obtain ⟨created, m, made, before, g, group⟩ := consumerGroupCreate_finish (p := p)
    serde calm w
  obtain ⟨r, w', ran, left, silent, status, result⟩ := fetchConsumerTasks_finish (p := p)
    serde calm ("consumer_" ++ (choose .newUuid w).uuid) group
  have same : undelivered m = undelivered w := before.queue.symm
  rw [Task.finish_tryBind, Task.finish_lift, made]
  simp only
  rw [Task.finish_tryBind, ran, ← same]
  rcases result with ⟨tasks, rfl, given⟩ | ⟨⟨err, rfl⟩, nothing, unread⟩
  · obtain ⟨log, started, all⟩ : ∃ log, (startWorkflows tasks).finish (carryOut choose p) w' =
        ((), { w' with log := log }) ∧
        startedIds log = startedIds w'.log ++ tasks.map ProcessTracker.id :=
      startWorkflows_finish tasks w'
    refine ⟨.ok (), { w' with log := log }, ?_, before.append ⟨left, ?_, status⟩, fun _ => rfl⟩
    · simp only [Task.finish_lift, started]
    · rw [all, silent, given]
  · refine ⟨.error err, w', rfl, before.append ⟨left, ?_, status⟩, fun all => ?_⟩
    · rw [silent, nothing, List.append_nil]
    · obtain ⟨e, mem, unreadable⟩ := unread
      exact absurd (all e mem) unreadable

theorem consumers_inTurn (serde : Serde) (conf : SchedulerSettings) (calm : FaultFree choose) (k p : Nat)
    (w : World) :
    ∃ rs w', (machine serde conf).inTurn choose p (List.replicate k .consumerOperations) w =
        (rs, w') ∧ Starts serde ((undelivered w).take k) w w' ∧
      ((∀ e ∈ undelivered w, Readable serde e.fields) →
        rs = List.replicate k (.flow (.ok ()))) := by
  induction k generalizing p w with
  | zero => exact ⟨[], w, rfl, .nothing rfl rfl rfl, fun _ => rfl⟩
  | succ k ih =>
    obtain ⟨r, m, ran, first, ended⟩ := consumerOperations_finish (p := p) serde calm w
    obtain ⟨rs, w', later, rest, endedAll⟩ := ih (p + 1) m
    have alone : (machine serde conf).alone choose p .consumerOperations w = (.flow r, m) := by
      change ((consumerOperations serde).run.bind _).finish (carryOut choose p) w = _
      rw [Task.finish_bind, ran]
      rfl
    have taken : (undelivered w).take (k + 1) =
        (undelivered w).take 1 ++ (undelivered m).take k := by
      have others : (undelivered w).drop 1 = undelivered m :=
        List.append_cancel_left ((List.take_append_drop 1 _).trans first.queue)
      rw [Nat.add_comm, List.take_add, others]
    refine ⟨.flow r :: rs, w', ?_, taken ▸ first.append rest, fun all => ?_⟩
    · rw [List.replicate_succ, Machine.inTurn, alone, later]
    · have left : ∀ e ∈ undelivered m, Readable serde e.fields := fun e mem =>
        all e (first.queue ▸ List.mem_append_right _ mem)
      rw [ended all, endedAll left, List.replicate_succ]

end Consumers

/- The producer. -/

section Producer

variable {serde : Serde} {choose : Command → World → Choice} {p : Nat} {w w' u : World}

def smooth (batch : ProcessTrackerBatch) : ProcessTrackerBatch × Fate :=
  (batch, ⟨0, .answered, .databaseError .others, true, .answered, 0, 0⟩)

def Untouched (w w' : World) : Prop :=
  w'.group = w.group ∧ startedIds w'.log = startedIds w.log

theorem streamAppendEntry_finish (calm : FaultFree choose) (fields : FieldValuePairs) (w : World) :
    ∃ gap, (streamAppendEntry fields).run.finish (carryOut choose p) w =
      (.ok (), w.append p gap fields) := by
  refine ⟨(choose (.xadd fields) w).gap, ?_⟩
  rw [streamAppendEntry, Task.finish_tryBind, getRedisConn_finish calm]
  simp only [Task.finish_changeContext, Task.finish_call, exec, calm.redis, Delivery.through,
    Except.mapError]

theorem updateStatusAndAppend_finish (serde : Serde) (calm : FaultFree choose) (batch : ProcessTrackerBatch)
    (w : World) :
    ∃ r w', (updateStatusAndAppend serde .producer batch).run.finish (carryOut choose p) w =
        (r, w') ∧ Leaves serde [smooth batch] w w' ∧ Untouched w w' := by
  obtain ⟨n, now, updated⟩ := updateStatus_finish (p := p) calm
    (batch.trackers.map ProcessTracker.id) .processing w
  let ids := batch.trackers.map ProcessTracker.id
  have moved : ∀ id, (w.update p ids (processing now)).table.status id =
      (w.table.status id).map fun s => if id ∈ ids then .processing else s :=
    update_status w ids now
  rw [← processing] at updated
  rw [updateStatusAndAppend, Task.finish_tryBind, updateStatus, Task.finish_tryBind,
    Task.finish_changeContext, updated]
  simp only [Except.mapError, Task.finish_pure]
  rw [Task.finish_tryBind]
  cases written : batch.toRedisFieldValuePairs serde with
  | error err =>
    refine ⟨_, _, rfl, .single moved (.inl ⟨?_, rfl⟩), rfl, ?_⟩
    · simp only [appended, smooth, written]
    · simp [World.update, startedIds]
  | ok fields =>
    obtain ⟨gap, added⟩ := streamAppendEntry_finish (p := p) calm fields
      (w.update p (batch.trackers.map ProcessTracker.id) (processing now))
    refine ⟨.ok (), (w.update p (batch.trackers.map ProcessTracker.id) (processing now)).append p
      gap fields, ?_, .single moved (.inr ⟨gap, fields, ?_, rfl⟩), rfl, ?_⟩
    · change Task.finish _ (ExceptT.lift (streamAppendEntry fields).run >>= _).run _ = _
      rw [Task.finish_tryBind, Task.finish_lift, added]
      rfl
    · simp [appended, smooth, written]
    · simp [World.update, World.append, startedIds]

theorem appendBatches_finish (serde : Serde) (calm : FaultFree choose) (batches : List ProcessTrackerBatch)
    (w : World) :
    ∃ w', (appendBatches serde .producer batches).run.finish (carryOut choose p) w =
        (.ok (), w') ∧ Leaves serde (batches.map smooth) w w' ∧ Untouched w w' := by
  induction batches generalizing w with
  | nil => exact ⟨w, rfl, .nothing, rfl, rfl⟩
  | cons batch batches ih =>
    obtain ⟨r, m, ran, leaves, untouched⟩ := updateStatusAndAppend_finish (p := p)
      serde calm batch w
    obtain ⟨w', rest, leaves', untouched'⟩ := ih m
    refine ⟨w', ?_, leaves.append leaves', untouched'.1.trans untouched.1,
      untouched'.2.trans untouched.2⟩
    rw [appendBatches, Task.finish_tryBind, Task.finish_lift, ran]
    exact rest

def dueTasks (conf : SchedulerSettings) (now : PrimitiveDateTime) (table : Table) :
    Option (List ProcessTracker) := do
  let upper ← PrimitiveDateTime.checkedAdd now conf.producer.upperFetchLimit
  let lower ← PrimitiveDateTime.checkedAdd now (-conf.producer.lowerFetchLimit)
  return table.findByTimeStatus lower upper .new none ++
    table.findByTimeStatus lower upper .pending none

theorem fetchProducerTasks_finish {conf : SchedulerSettings} (calm : FaultFree choose)
    {tasks : List ProcessTracker} (due : dueTasks conf (choose .now w).now w.table = some tasks) :
    ∃ w', (fetchProducerTasks conf).run.finish (carryOut choose p) w = (.ok tasks, w') ∧
      w'.table = w.table ∧ w'.stream = w.stream ∧ Untouched w w' := by
  rw [dueTasks] at due
  cases upper : PrimitiveDateTime.checkedAdd (choose .now w).now conf.producer.upperFetchLimit with
  | none => simp [upper] at due
  | some hi =>
    cases lower : PrimitiveDateTime.checkedAdd (choose .now w).now
        (-conf.producer.lowerFetchLimit) with
    | none => simp [upper, lower] at due
    | some lo =>
      simp only [upper, lower, Option.bind_eq_bind, Option.bind_some, Option.pure_def,
        Option.some.injEq] at due
      subst due
      rw [fetchProducerTasks, Task.finish_tryBind, Task.finish_lift, Task.finish_call]
      simp only [exec, upper, lower]
      rw [Task.finish_tryBind, Task.finish_changeContext, Task.finish_call]
      simp only [exec, calm.database, Delivery.through, Except.mapError]
      rw [Task.finish_tryBind, Task.finish_changeContext, Task.finish_call]
      simp only [exec, calm.database, Delivery.through, Except.mapError]
      refine ⟨_, rfl, rfl, rfl, rfl, ?_⟩
      simp [World.note, startedIds]

theorem divideIntoBatches_ok {conf : SchedulerSettings} (nonzero : conf.producer.batchSize ≠ 0)
    (tasks : List ProcessTracker) (now : PrimitiveDateTime) (batchId : String) :
    ∃ batches, divideIntoBatches conf.producer.batchSize tasks now batchId conf = some batches ∧
      batches.map ProcessTrackerBatch.trackers = chunks conf.producer.batchSize tasks ∧
      ∀ batch ∈ batches, batch.createdTime = now := by
  refine ⟨_, if_neg nonzero, ?_, ?_⟩
  · rw [List.map_map]
    exact List.map_id _
  · intro batch mem
    obtain ⟨item, -, rfl⟩ := List.mem_map.mp mem
    rfl

theorem producerFlow_finish (serde : Serde) {conf : SchedulerSettings} (calm : FaultFree choose)
    {tasks : List ProcessTracker} (due : dueTasks conf (choose .now w).now w.table = some tasks)
    (nonzero : conf.producer.batchSize ≠ 0) :
    ∃ (batches : List ProcessTrackerBatch) (w' : World),
      (producerFlow serde conf).run.finish (carryOut choose p) w = (.ok (), w') ∧
      batches.map ProcessTrackerBatch.trackers = chunks conf.producer.batchSize tasks ∧
      (∀ batch ∈ batches, PrimitiveDateTime.valid batch.createdTime = true) ∧
      Leaves serde (batches.map smooth) w w' ∧ Untouched w w' := by
  obtain ⟨m, fetched, table, stream, group, silent⟩ := fetchProducerTasks_finish (p := p) calm due
  rw [producerFlow, Task.finish_tryBind, fetched]
  simp only [divideAndAppendTasks]
  rw [Task.finish_tryBind, Task.finish_lift, Task.finish_call]
  simp only [exec]
  rw [Task.finish_tryBind, Task.finish_lift, Task.finish_call]
  simp only [exec]
  obtain ⟨batches, divided, trackers, created⟩ := divideIntoBatches_ok nonzero tasks
    (choose .now m).now (choose .newUuid m).uuid
  obtain ⟨w', ran, leaves, untouched⟩ := appendBatches_finish (p := p) serde calm batches
    m
  simp only [divided]
  refine ⟨batches, w', ran, trackers, fun batch mem => created batch mem ▸ calm.clock _ _,
    ⟨table ▸ leaves.status, stream ▸ leaves.stream, stream ▸ leaves.later⟩,
    untouched.1.trans group, untouched.2.trans silent⟩

theorem validTrackers_same {read : List ProcessTracker} {batch : ProcessTrackerBatch}
    (same : (read.map fun task => (task.id, task.businessStatus)) =
      batch.trackers.map fun task => (task.id, task.businessStatus)) :
    (validTrackers [{ batch with trackers := read }]).map ProcessTracker.id =
      (validTrackers [batch]).map ProcessTracker.id := by
  have told : ∀ tasks : List ProcessTracker,
      ((tasks.filter fun task => task.isValidBusinessStatus validBusinessStatuses).map
          ProcessTracker.id) =
        ((tasks.map fun task => (task.id, task.businessStatus)).filter fun x =>
          validBusinessStatuses.any fun status => status == x.2).map Prod.fst := by
    intro tasks
    rw [List.filter_map, List.map_map]
    rfl
  simp only [validTrackers, List.flatMap_singleton]
  rw [told, told, same]

def Serde.keeps (serde : Serde) (item : List ProcessTracker) : Bool :=
  (serde.toString item >>= serde.fromStr).isOk

theorem readable_written {batch : ProcessTrackerBatch} {fields : FieldValuePairs}
    {read : List ProcessTracker} (written : batch.toRedisFieldValuePairs serde = .ok fields)
    {text : String} (encoded : serde.toString batch.trackers = .ok text)
    (decoded : serde.fromStr text = .ok read)
    (valid : PrimitiveDateTime.valid batch.createdTime = true) :
    ProcessTrackerBatch.fromRedisStreamEntry serde (readFields fields) =
      .ok { batch with createdTime := batch.createdTime.toSeconds, trackers := read } := by
  rw [ProcessTrackerBatch.toRedisFieldValuePairs, encoded] at written
  cases written
  obtain ⟨low, high⟩ := unixTimestamp_range valid
  have numeral := parseI64_iff.mp (parseI64_toString low high)
  rw [ProcessTrackerBatch.fromRedisStreamEntry_ok]
  exact ⟨rfl, rfl, rfl, rfl, parseCreatedTime_ok.mpr ⟨_, numeral, toSeconds_valid valid, rfl⟩,
    rfl, ProcessTrackerBatch.parseTrackers_ok.mpr decoded⟩

theorem startable_written (faithful : serde.Faithful) {batch : ProcessTrackerBatch}
    {fields : FieldValuePairs} (written : batch.toRedisFieldValuePairs serde = .ok fields)
    (valid : PrimitiveDateTime.valid batch.createdTime = true) :
    (serde.keeps batch.trackers = true → Readable serde fields) ∧
      startable serde fields = if serde.keeps batch.trackers then
        (validTrackers [batch]).map ProcessTracker.id else [] := by
  obtain ⟨text, encoded, found⟩ := trackers_written written
  have bound : serde.toString batch.trackers >>= serde.fromStr = serde.fromStr text := by
    rw [encoded]
    rfl
  rw [Serde.keeps, bound]
  cases decoded : serde.fromStr text with
  | ok read =>
    have readable := readable_written written encoded decoded valid
    refine ⟨fun _ => ⟨_, readable⟩, ?_⟩
    rw [startable, readable]
    exact validTrackers_same (faithful.kept _ _ _ encoded decoded)
  | error e =>
    refine ⟨nofun, ?_⟩
    rw [startable]
    cases read : ProcessTrackerBatch.fromRedisStreamEntry serde (readFields fields) with
    | error e => rfl
    | ok batch' =>
      obtain ⟨_, _, _, _, _, _, trackers⟩ :=
        ProcessTrackerBatch.fromRedisStreamEntry_ok.mp read
      obtain ⟨text', found', parsed⟩ := bind_ok.mp trackers
      cases found.symm.trans found'
      cases decoded.symm.trans (ProcessTrackerBatch.parseTrackers_ok.mp parsed)

/-- The tasks of the batches that serde_json writes and can read. -/
def sent (serde : Serde) (size : Nat) (tasks : List ProcessTracker) : List ProcessTracker :=
  ((chunks size tasks).filter serde.keeps).flatten

def begun (serde : Serde) (conf : SchedulerSettings) (tasks : List ProcessTracker) : List String :=
  ((sent serde conf.producer.batchSize tasks).filter fun task =>
    task.isValidBusinessStatus validBusinessStatuses).map ProcessTracker.id

theorem startable_batches (faithful : serde.Faithful) {batches : List ProcessTrackerBatch}
    (valid : ∀ batch ∈ batches, PrimitiveDateTime.valid batch.createdTime = true) :
    let pairs := (batches.map smooth).filterMap (appended serde)
    ((∀ batch ∈ batches, (serde.toString batch.trackers).isOk → serde.keeps batch.trackers) →
      ∀ fields ∈ pairs, Readable serde fields) ∧
    pairs.flatMap (startable serde) =
      ((((batches.map ProcessTrackerBatch.trackers).filter serde.keeps).flatten).filter fun task =>
        task.isValidBusinessStatus validBusinessStatuses).map ProcessTracker.id := by
  induction batches with
  | nil => exact ⟨nofun, rfl⟩
  | cons batch batches ih =>
    obtain ⟨readable, rest⟩ := ih fun b mem => valid b (List.mem_cons_of_mem _ mem)
    cases encoded : serde.toString batch.trackers with
    | error err =>
      have unwritten : appended serde (smooth batch) = none := by
        simp [appended, smooth, ProcessTrackerBatch.toRedisFieldValuePairs, encoded]
      have lost : serde.keeps batch.trackers = false := by
        rw [Serde.keeps, encoded]
        rfl
      simp only [List.map_cons, List.filterMap_cons, unwritten, List.filter_cons, lost]
      exact ⟨fun all => readable fun b mem => all b (List.mem_cons_of_mem _ mem), rest⟩
    | ok text =>
      obtain ⟨fields, written⟩ : ∃ fields, batch.toRedisFieldValuePairs serde = .ok fields := by
        simp [ProcessTrackerBatch.toRedisFieldValuePairs, encoded]
      have one : appended serde (smooth batch) = some fields := by
        simp [appended, smooth, written]
      obtain ⟨read, tasks⟩ := startable_written faithful written (valid batch List.mem_cons_self)
      simp only [List.map_cons, List.filterMap_cons, one, List.filter_cons]
      constructor
      · intro all
        have kept := all batch List.mem_cons_self (by rw [encoded]; rfl)
        exact List.forall_mem_cons.mpr
          ⟨read kept, readable fun b mem => all b (List.mem_cons_of_mem _ mem)⟩
      · rw [List.flatMap_cons, tasks, rest]
        cases kept : serde.keeps batch.trackers <;> simp [validTrackers]

theorem dueTasks_nodup {conf : SchedulerSettings} {now : PrimitiveDateTime} {table : Table}
    {tasks : List ProcessTracker} (due : dueTasks conf now table = some tasks) :
    (tasks.map ProcessTracker.id).Nodup := by
  simp only [dueTasks, Option.bind_eq_bind, Option.bind_eq_some_iff, Option.pure_def,
    Option.some.injEq] at due
  obtain ⟨upper, -, lower, -, rfl⟩ := due
  rw [List.map_append]
  refine List.nodup_append.mpr ⟨table.distinct.sublist (List.filter_sublist.map _),
    table.distinct.sublist (List.filter_sublist.map _), ?_⟩
  rintro id new _ pending rfl
  have both := (table.status_of_found new).symm.trans (table.status_of_found pending)
  cases both

theorem begun_nodup {conf : SchedulerSettings} {tasks : List ProcessTracker}
    (distinct : (tasks.map ProcessTracker.id).Nodup) (nonzero : conf.producer.batchSize ≠ 0) :
    (begun serde conf tasks).Nodup := by
  have within : (sent serde conf.producer.batchSize tasks).Sublist tasks := by
    have cut := chunks_flatten (Nat.pos_of_ne_zero nonzero) tasks
    rw [sent]
    conv => rhs; rw [← cut]
    exact List.filter_sublist.flatten
  exact distinct.sublist ((List.filter_sublist.trans within).map _)

theorem Untouched.undelivered_append {g : Group} {more : List (Entry FieldValuePairs)}
    (untouched : Untouched w w') (group : w.group = some g)
    (bounded : g.lastDelivered ≤ w.stream.lastId)
    (entries : w'.stream.entries = w.stream.entries ++ more)
    (above : ∀ e ∈ more, w.stream.lastId < e.id) : undelivered w' = undelivered w ++ more := by
  rw [undelivered, undelivered, untouched.1, group]
  simp only [entries, List.filter_append]
  refine congrArg _ (List.filter_eq_self.mpr fun e mem => decide_eq_true ?_)
  exact Nat.lt_of_le_of_lt bounded (above e mem)

theorem moves_smooth (batches : List ProcessTrackerBatch) : (batches.map smooth).flatMap moves =
    ((batches.map ProcessTrackerBatch.trackers).flatten).map ProcessTracker.id := by
  rw [List.flatMap_map, List.map_flatten, List.map_map]
  rfl

variable {conf : SchedulerSettings}

theorem producerFlow_answers
    (ran : (producerFlow serde conf).run.finish (carryOut choose p) w = (.ok (), w')) :
    (machine serde conf).alone choose p .producerFlow w = (.flow (.ok ()), w') := by
  change ((producerFlow serde conf).run.bind _).finish (carryOut choose p) w = _
  rw [Task.finish_bind, ran]
  rfl

def oneRound (k : Nat) : List Call := .producerFlow :: List.replicate k .consumerOperations

structure Drains (serde : Serde) (conf : SchedulerSettings) (tasks : List ProcessTracker)
    (w w' : World) : Prop where
  started : startedIds w'.log = startedIds w.log ++
    ((undelivered w).flatMap fun e => startable serde e.fields) ++ begun serde conf tasks
  once : (begun serde conf tasks).Nodup
  empty : undelivered w' = []
  status : ∀ id, w'.table.status id = (w.table.status id).map fun s =>
    if id ∈ ((undelivered w).flatMap fun e => startable serde e.fields) ++ begun serde conf tasks
      then .processStarted
    else if id ∈ tasks.map ProcessTracker.id then .processing else s

theorem round_drains (faithful : serde.Faithful) (nonzero : conf.producer.batchSize ≠ 0)
    (calm : FaultFree choose) {g : Group} (group : w.group = some g)
    (bounded : g.lastDelivered ≤ w.stream.lastId) {tasks : List ProcessTracker}
    (due : dueTasks conf (choose .now w).now w.table = some tasks) {k : Nat}
    (enough : (undelivered w).length + (chunks conf.producer.batchSize tasks).length ≤ k) :
    ∃ rs w', (machine serde conf).inTurn choose p (oneRound k) w = (rs, w') ∧
      ((∀ e ∈ undelivered w, Readable serde e.fields) →
        (∀ item ∈ chunks conf.producer.batchSize tasks,
          (serde.toString item).isOk → serde.keeps item) →
        rs = List.replicate (k + 1) (.flow (.ok ()))) ∧
      Drains serde conf tasks w w' := by
  obtain ⟨batches, m, ran, trackers, valid, leaves, untouched⟩ := producerFlow_finish (p := p)
    serde calm due nonzero
  obtain ⟨readable, tasksRead⟩ := startable_batches faithful valid
  obtain ⟨more, entries, fields, above⟩ := leaves.stream
  have queue : undelivered m = undelivered w ++ more :=
    untouched.undelivered_append group bounded entries above
  have fewer : more.length ≤ (chunks conf.producer.batchSize tasks).length := by
    rw [← trackers, List.length_map, ← List.length_map (f := smooth),
      ← List.length_map (f := Entry.fields), fields]
    exact List.length_filterMap_le ..
  obtain ⟨rs, w', consumed, starts, ended⟩ := consumers_inTurn serde conf calm k (p + 1) m
  have all : (undelivered m).take k = undelivered m := by
    refine List.take_of_length_le ?_
    rw [queue, List.length_append]
    omega
  have given : ((undelivered m).flatMap fun e => startable serde e.fields) =
      ((undelivered w).flatMap fun e => startable serde e.fields) ++ begun serde conf tasks := by
    rw [queue, List.flatMap_append]
    refine congrArg (_ ++ ·) ?_
    rw [begun, sent, ← trackers, ← tasksRead, ← fields, List.flatMap_map]
  rw [all] at starts
  refine ⟨.flow (.ok ()) :: rs, w', ?_, ?_, ⟨?_, begun_nodup (dueTasks_nodup due) nonzero, ?_, ?_⟩⟩
  · rw [oneRound, Machine.inTurn, producerFlow_answers ran, consumed]
  · intro old new
    have fine : ∀ e ∈ undelivered m, Readable serde e.fields := by
      intro e mem
      rw [queue] at mem
      rcases List.mem_append.mp mem with before | now
      · exact old e before
      · refine readable (fun batch hb => new _ ?_) e.fields (fields ▸ List.mem_map_of_mem now)
        exact trackers ▸ List.mem_map_of_mem hb
    rw [ended fine, List.replicate_succ]
  · rw [starts.started, untouched.2, given, List.append_assoc]
  · exact List.self_eq_append_right.mp starts.queue
  · intro id
    have moved : id ∈ (batches.map smooth).flatMap moves ↔ id ∈ tasks.map ProcessTracker.id := by
      rw [moves_smooth, trackers, chunks_flatten (Nat.pos_of_ne_zero nonzero)]
    rw [starts.status, leaves.status, given, Option.map_map]
    refine congrArg (Option.map · _) (funext fun s => ?_)
    simp only [Function.comp_apply, moved]

/-- When nothing fails, a producer run that finds the lock free and enough consumer runs after it
start what was left on the stream and then what is due, each task once, and leave nothing on the
stream; a task that is due and not started, since its batch cannot be written or read or its
business status is another, stays `Processing`. All of the runs return `Ok` if what was left and
what is written now can be read. -/
theorem due_tasks_started (faithful : serde.Faithful) (nonzero : conf.producer.batchSize ≠ 0)
    (calm : FaultFree choose) {keys : String → Option String} {table : Table} {c : LockedConfig}
    (reached : Machine.Reach (lockedMachine serde conf) Machine.anyStep
      (.initial (.start keys (.start table))) c)
    (free : c.world.keys conf.producer.lockKey = none)
    {g : Group} (group : c.world.inner.group = some g) {tasks : List ProcessTracker}
    (due : dueTasks conf (choose .now c.world.inner).now c.world.inner.table = some tasks) {k : Nat}
    (enough : (undelivered c.world.inner).length +
      (chunks conf.producer.batchSize tasks).length ≤ k)
    (idle : ∀ q, p ≤ q → c.procs q = .idle) :
    ∃ d, Machine.Reach (lockedMachine serde conf) Machine.anyStep c d ∧
      d.world = ((lockedMachine serde conf).inTurn (Lock.calmly choose) p (oneRound k) c.world).2 ∧
      d.world.keys = c.world.keys ∧
      ((∀ e ∈ undelivered c.world.inner, Readable serde e.fields) →
        (∀ item ∈ chunks conf.producer.batchSize tasks,
          (serde.toString item).isOk → serde.keeps item) →
        ∀ i a, (oneRound k)[i]? = some a → d.procs (p + i) = .live a (.done (.flow (.ok ())))) ∧
      Drains serde conf tasks c.world.inner d.world.inner := by
  obtain ⟨c', reached', world⟩ := reach_unlocked reached
  have bounded : g.lastDelivered ≤ c.world.inner.stream.lastId :=
    world ▸ (reach_consistent reached').bounded g (world ▸ group)
  obtain ⟨rs, w', ran, ended, drains⟩ := round_drains (p := p) faithful nonzero calm group bounded
    due enough
  obtain ⟨d, run, after, -, returned⟩ := Machine.reach_inTurn (M := lockedMachine serde conf)
    (Lock.calmly choose) (oneRound k) idle
  have turns : (lockedMachine serde conf).inTurn (Lock.calmly choose) p (oneRound k) c.world =
      c.world.carried ((machine serde conf).inTurn choose p (oneRound k) c.world.inner) :=
    inTurn_unlocked free (oneRound k)
  rw [ran] at turns
  refine ⟨d, run, after, ?_, ?_, ?_⟩
  · rw [after, turns]
    rfl
  · intro old new i a call
    rw [turns] at returned
    refine returned i a _ call ?_
    have short : i < k + 1 := by
      have := (List.getElem?_eq_some_iff.mp call).1
      simpa [oneRound] using this
    exact (congrArg (·[i]?) (ended old new)).trans (by rw [List.getElem?_replicate, if_pos short])
  · rw [after, turns]
    exact drains

end Producer

set_option maxRecDepth 2000 in
/-- The first consumer run creates the group; the producer then takes the lock and appends the one
task that is due, and of two more consumer runs the first one starts it. -/
theorem due_tasks_started_sync :
    ∃ (c d : LockedConfig), Machine.Reach (lockedMachine dueTaskSerde sampleSettings)
        Machine.anyStep (.initial (.start (fun _ => none) dueWorld)) c ∧
      Machine.Reach (lockedMachine dueTaskSerde sampleSettings) Machine.anyStep c d ∧
      c.world.inner.table.status "sync" = some .new ∧
      startedIds d.world.inner.log = ["sync"] ∧ undelivered d.world.inner = [] ∧
      d.world.inner.table.status "sync" = some .processStarted := by
  have calm : FaultFree fun _ _ => {} :=
    ⟨fun _ _ => rfl, fun _ _ => rfl, fun _ _ => rfl, fun _ _ => by decide⟩
  obtain ⟨c, reached, inner, free, idle⟩ : ∃ c : LockedConfig,
      Machine.Reach (lockedMachine dueTaskSerde sampleSettings) Machine.anyStep
        (.initial (.start (fun _ => none) dueWorld)) c ∧
      c.world.inner = dueWorld.createGroup 0 ∧
      c.world.keys sampleSettings.producer.lockKey = none ∧ ∀ q, 1 ≤ q → c.procs q = .idle :=
    ⟨_, Machine.reach_alone (p := 0) (a := .consumerOperations) (Lock.calmly fun _ _ => {}) trivial
      (fun _ _ _ => trivial) rfl, rfl, rfl, fun q le => Machine.afterCall_other (Nat.ne_of_gt le) ..⟩
  have due : dueTasks sampleSettings (({} : Choice).now) (dueWorld.createGroup 0).table =
      some [dueTask] := rfl
  have group : c.world.inner.group = some ⟨0, []⟩ := by
    rw [inner]
    rfl
  obtain ⟨d, run, -, -, -, drains⟩ := due_tasks_started (p := 1) (k := 2) dueTaskSerde_faithful
    (by decide) calm reached free group (inner ▸ due) (by rw [inner]; decide) idle
  have started := drains.started
  have status := drains.status "sync"
  rw [inner] at started status
  exact ⟨c, d, reached, run, by rw [inner]; rfl, started.trans rfl, drains.empty, status.trans rfl⟩

end Mercado.Scheduler
