import Mercado.Async.Alone
import Mercado.Async.Rely
import Mercado.Scheduler.Commands
import Mercado.Scheduler.Effects

/-! The consumer drops the tasks whose business status it does not know. When operations
follow each other, no task that is still meant to run is dropped. -/
namespace Mercado.Scheduler
open Async Redis Results

def ProcessTrackerStatus.schedulable : ProcessTrackerStatus → Bool
  | .new | .pending | .processing => true
  | .processStarted | .finish => false

def ProcessTracker.passes (task : ProcessTracker) : Prop :=
  task.isValidBusinessStatus validBusinessStatuses = true

theorem passes_iff {task : ProcessTracker} : task.passes ↔ task.businessStatus = "Pending" := by
  simp only [ProcessTracker.passes, ProcessTracker.isValidBusinessStatus, validBusinessStatuses,
    List.any_cons, List.any_nil, Bool.or_false, beq_iff_eq]
  exact eq_comm

section Orderly

variable (serde : Serde)

structure Orderly (w : World) : Prop where
  table : ∀ row ∈ w.table.rows, row.status.schedulable = true → row.passes
  stream : ∀ e ∈ w.stream.entries, ∀ batch,
    ProcessTrackerBatch.fromRedisStreamEntry serde (readFields e.fields) = .ok batch →
      ∀ task ∈ batch.trackers, task.passes

def Safe (w : World) : Command → Prop
  | .updateProcessStatusByIds ids u => ∀ row ∈ w.table.rows, row.id ∈ ids →
    (u.apply row).status.schedulable = true → (u.apply row).passes
  | .updateById id u => ∀ row ∈ w.table.rows, row.id ∈ [id] →
    (u.apply row).status.schedulable = true → (u.apply row).passes
  | .reinitializeLimboProcesses ids _ => ∀ row ∈ w.table.rows, row.id ∈ ids → row.passes
  | .insertProcess new => new.row.passes
  | .xadd fields => ∀ batch,
    ProcessTrackerBatch.fromRedisStreamEntry serde (readFields fields) = .ok batch →
      ∀ task ∈ batch.trackers, task.passes
  | _ => True

def PassesAt (ids : List String) (w : World) : Prop :=
  ∀ row ∈ w.table.rows, row.id ∈ ids → row.passes

def Plain : Command → Prop
  | .updateProcessStatusByIds _ u | .updateById _ u => u.businessStatus = none
  | .insertProcess _ => False
  | _ => True

variable {serde} {p : Nat} {cmd : Command} {w w' : World} {ids : List String}

theorem Orderly.update (h : Orderly serde w) {u : ProcessTrackerUpdateInternal}
    (safe : ∀ row ∈ w.table.rows, row.id ∈ ids → (u.apply row).status.schedulable = true →
      (u.apply row).passes) : Orderly serde (w.update p ids u) := by
  refine ⟨fun row mem => ?_, h.stream⟩
  obtain ⟨old, hold, rfl⟩ := List.mem_map.mp mem
  by_cases named : old.id ∈ ids
  · simpa [named] using safe old hold named
  · simpa [named] using h.table old hold

theorem Effect.orderly (h : Effect p cmd w w') (safe : Safe serde w cmd)
    (before : Orderly serde w) : Orderly serde w' := by
  cases h with
  | updated | updatedOne => exact before.update safe
  | reinitialized =>
    refine ⟨fun row mem => ?_, before.stream⟩
    obtain ⟨old, hold, rfl⟩ := List.mem_map.mp mem
    split
    · rename_i named
      simp only [Bool.and_eq_true, List.contains_iff_mem] at named
      exact fun _ => safe old hold named.2
    · exact before.table old hold
  | inserted free =>
    refine ⟨fun row mem => ?_, before.stream⟩
    unfold Table.insert at free
    split at free
    · cases free
      rcases List.mem_append.mp mem with old | new
      · exact before.table row old
      · cases List.mem_singleton.mp new
        exact fun _ => safe
    · cases free
  | appended =>
    refine ⟨before.table, fun e he => ?_⟩
    rcases List.mem_append.mp he with old | new
    · exact before.stream e old
    · cases List.mem_singleton.mp new
      exact safe
  | deleted => exact ⟨before.table, fun e he => before.stream e (List.mem_of_mem_filter he)⟩
  | _ => exact ⟨before.table, before.stream⟩

theorem apply_passes {u : ProcessTrackerUpdateInternal} (plain : u.businessStatus = none)
    {row : ProcessTracker} : (u.apply row).passes ↔ row.passes := by
  simp [passes_iff, plain]

theorem Effect.passesAt (h : Effect p cmd w w') (plain : Plain cmd) (before : PassesAt ids w) :
    PassesAt ids w' := by
  have updated : ∀ {named u}, u.businessStatus = none →
      PassesAt ids (w.update p named u) := by
    intro named u plain row mem hid
    obtain ⟨old, hold, rfl⟩ := List.mem_map.mp mem
    by_cases mine : old.id ∈ named
    · simp only [mine, List.contains_iff_mem, if_true] at hid ⊢
      exact (apply_passes plain).mpr (before old hold hid)
    · simp only [mine, List.contains_iff_mem, if_false] at hid ⊢
      exact before old hold hid
  cases h with
  | updated | updatedOne => exact updated plain
  | inserted => exact False.elim plain
  | reinitialized =>
    intro row mem hid
    obtain ⟨old, hold, rfl⟩ := List.mem_map.mp mem
    split
    · rename_i limbo
      simp only [limbo, if_true] at hid
      exact before old hold hid
    · rename_i other
      simp only [other] at hid
      exact before old hold hid
  | _ => exact before

/- One flow alone. -/

variable (serde p) in
def alone : Setting Command Reply World Choice where
  exec := exec p
  inv := Orderly serde
  rely := fun w w' => w' = w
  guar := fun _ _ _ => True
  allow := fun _ _ _ => True

theorem alone_stable {I : World → Prop} : (alone serde p).Stable I :=
  fun _ _ moved _ holds => moved ▸ holds

theorem alone_step {I : World → Prop} {Q : Reply cmd → World → Prop}
    (safe : ∀ w, Orderly serde w → I w → Safe serde w cmd)
    (answers : ∀ o w, Orderly serde w → I w → Q (exec p cmd o w).1 (exec p cmd o w).2) :
    (alone serde p).Step I cmd Q :=
  fun w o orderly _ holds => ⟨trivial,
    (exec_effect p cmd o w).orderly (safe w orderly holds) orderly, answers o w orderly holds⟩

theorem every_alone {α : Type} {A : Command → Prop} {I : World → Prop} {t : SchedulerTask α}
    (safe : ∀ cmd, A cmd → ∀ w, I w → Safe serde w cmd)
    (keeps : ∀ cmd, A cmd → ∀ w w', Effect p cmd w w' → I w → I w')
    (h : t.every A) (holds : I w) : (alone serde p).Holds (fun _ => I) t w :=
  .every alone_stable (fun cmd allowed => alone_step (fun w _ holds => safe cmd allowed w holds)
    fun o w _ holds => keeps cmd allowed w _ (exec_effect p cmd o w) holds) h holds

theorem harmless_alone {α : Type} {A : Command → Prop} {t : SchedulerTask α}
    (safe : ∀ cmd, A cmd → ∀ w, Safe serde w cmd) (h : t.every A) :
    (alone serde p).Holds (fun _ _ => True) t w :=
  every_alone (fun cmd allowed w _ => safe cmd allowed w) (fun _ _ _ _ _ _ => trivial) h trivial

theorem consumerCommand_safe (cmd : Command) (allowed : consumerCommand cmd) (w : World) :
    Safe serde w cmd := by
  cases cmd with
  | updateProcessStatusByIds ids u =>
    obtain ⟨now, rfl⟩ := allowed
    intro row _ _ schedulable
    cases schedulable
  | updateById | reinitializeLimboProcesses | insertProcess | xadd => exact False.elim allowed
  | _ => trivial

theorem batch_passes (faithful : serde.Faithful) {batch read : ProcessTrackerBatch}
    {fields : FieldValuePairs} (written : batch.toRedisFieldValuePairs serde = .ok fields)
    (decoded : ProcessTrackerBatch.fromRedisStreamEntry serde (readFields fields) = .ok read)
    (passes : ∀ task ∈ batch.trackers, task.passes) : ∀ task ∈ read.trackers, task.passes := by
  obtain ⟨_, _, _, _, _, _, trackers⟩ := ProcessTrackerBatch.fromRedisStreamEntry_ok.mp decoded
  obtain ⟨text, encoded, found⟩ := trackers_written written
  obtain ⟨text', found', parsed⟩ := bind_ok.mp trackers
  cases found.symm.trans found'
  have same := faithful.kept _ _ _ encoded (ProcessTrackerBatch.parseTrackers_ok.mp parsed)
  intro task mem
  have pair : (task.id, task.businessStatus) ∈
      batch.trackers.map fun task => (task.id, task.businessStatus) :=
    same ▸ List.mem_map_of_mem mem
  obtain ⟨origin, ho, key⟩ := List.mem_map.mp pair
  rw [passes_iff, ← (Prod.mk.inj key).2]
  exact passes_iff.mp (passes origin ho)

theorem append_alone (faithful : serde.Faithful) (conf : SchedulerSettings) (way : SchedulerFlow)
    {tasks : List ProcessTracker} (passes : ∀ task ∈ tasks, task.passes)
    (holds : PassesAt (tasks.map ProcessTracker.id) w) :
    (alone serde p).Holds (fun _ _ => True) (divideAndAppendTasks serde conf way tasks).run w := by
  refine (every_alone ?_ ?_ (divideAndAppendTasks_every way) holds).mono fun _ _ _ => trivial
  · intro cmd allowed w known
    cases cmd with
    | updateProcessStatusByIds ids u =>
      obtain ⟨⟨now, rfl⟩, named⟩ := allowed
      exact fun row mem hid _ => (apply_passes rfl).mpr (known row mem (named _ hid))
    | reinitializeLimboProcesses ids time =>
      exact fun row mem hid => known row mem (allowed _ hid)
    | xadd fields =>
      obtain ⟨batch, written, within⟩ := allowed
      exact fun read decoded => batch_passes faithful written decoded fun task mem =>
        passes task (within task mem)
    | updateById | insertProcess => exact False.elim allowed
    | _ => trivial
  · intro cmd allowed w w' effect known
    refine effect.passesAt ?_ known
    cases cmd with
    | updateProcessStatusByIds ids u =>
      obtain ⟨⟨now, rfl⟩, _⟩ := allowed
      rfl
    | updateById | insertProcess => exact False.elim allowed
    | _ => trivial

def Fetched (tasks : List ProcessTracker) (w : World) : Prop :=
  (∀ task ∈ tasks, task.passes) ∧ PassesAt (tasks.map ProcessTracker.id) w

theorem found_answer {lower upper : PrimitiveDateTime} {status : ProcessTrackerStatus}
    {limit : Option Nat} {o : Choice} {before found : List ProcessTracker}
    (due : status.schedulable = true) (orderly : Orderly serde w) (holds : Fetched before w)
    (ok : (exec p (.findProcessesByTimeStatus lower upper status limit) o w).1 = .ok found) :
    Fetched (before ++ found)
      (exec p (.findProcessesByTimeStatus lower upper status limit) o w).2 := by
  obtain ⟨rfl, after⟩ := Delivery.through_ok ok
  simp only [exec, after]
  constructor
  · intro task mem
    rcases List.mem_append.mp mem with old | new
    · exact holds.1 task old
    · obtain ⟨row, same⟩ := w.table.found_row new
      exact orderly.table task row (same ▸ due)
  · intro row mem hid
    rw [List.map_append] at hid
    rcases List.mem_append.mp hid with old | new
    · exact holds.2 row mem old
    · have same := (w.table.status_of_mem mem).symm.trans (w.table.status_of_found new)
      exact orderly.table row mem (Option.some.inj same ▸ due)

theorem fetchTasks_alone {lower upper : PrimitiveDateTime} {status : ProcessTrackerStatus}
    {e : ProcessTrackerError} (due : status.schedulable = true) {before : List ProcessTracker}
    (holds : Fetched before w) :
    (alone serde p).Holds (fun r w => ∀ found, r = .ok found → Fetched (before ++ found) w)
      (Task.changeContext e
        (call (.findProcessesByTimeStatus lower upper status none))).run w := by
  have step : (alone serde p).Step (Fetched before)
      (.findProcessesByTimeStatus lower upper status none)
      fun r w => ∀ found, r = .ok found → Fetched (before ++ found) w :=
    alone_step (fun _ _ _ => trivial) fun _ _ orderly holds _ ok =>
      found_answer due orderly holds ok
  refine .changeContext ((Setting.Holds.call alone_stable step holds).mono ?_)
  rintro (err | tasks) w fetched found ok
  · cases ok
  · cases ok
    exact fetched tasks rfl

theorem fetchProducerTasks_alone (conf : SchedulerSettings) :
    (alone serde p).Holds (fun r w => ∀ tasks, r = .ok tasks → Fetched tasks w)
      (fetchProducerTasks conf).run w := by
  refine .bindExcept (.lift ((harmless_alone (A := fun cmd => cmd = .now)
    (by rintro _ rfl _; trivial) (Task.every_call rfl)).mono ?_))
  intro now w _
  simp only
  split
  · split
    · have none : Fetched [] w := ⟨nofun, fun _ _ => nofun⟩
      refine .bindExcept ((fetchTasks_alone rfl none).mono ?_)
      intro r w new
      cases r with
      | error e => nofun
      | ok newTasks =>
        refine .bindExcept ((fetchTasks_alone rfl (new newTasks rfl)).mono ?_)
        intro r w pending
        cases r with
        | error e => nofun
        | ok pendingTasks =>
          rintro tasks ⟨⟩
          exact pending pendingTasks rfl
    · nofun
  · nofun

theorem producerFlow_alone (faithful : serde.Faithful) (conf : SchedulerSettings) :
    (alone serde p).Holds (fun _ _ => True) (producerFlow serde conf).run w := by
  refine .bindExcept ((fetchProducerTasks_alone conf).mono ?_)
  intro r w fetched
  cases r with
  | error e => trivial
  | ok tasks =>
    obtain ⟨passes, rows⟩ := fetched tasks rfl
    exact append_alone faithful conf .producer passes rows

theorem updateProcess_alone {this : ProcessTracker} {u : ProcessTrackerUpdate}
    (plain : ∀ now, (u.toInternal now).businessStatus = none) (holds : PassesAt [this.id] w) :
    (alone serde p).Holds (fun _ _ => True) (updateProcess this u).run w := by
  refine (every_alone (A := fun cmd => cmd = .now ∨ ∃ now, cmd = .updateById this.id
    (u.toInternal now)) ?_ ?_ (updateProcess_every (.inl rfl) fun now => .inr ⟨now, rfl⟩)
    holds).mono fun _ _ _ => trivial
  · rintro _ (rfl | ⟨now, rfl⟩) w rows
    · trivial
    · exact fun row mem hid _ => (apply_passes (plain now)).mpr (rows row mem hid)
  · rintro _ (rfl | ⟨now, rfl⟩) w w' effect rows
    · exact effect.passesAt trivial rows
    · exact effect.passesAt (plain now) rows

end Orderly

section Runs

variable {serde : Serde} {conf : SchedulerSettings} {p : Nat} {w : World}

/-- Tasks come from `ProcessTrackerNew.new`, and a task is reset or retried only while its
business status is one the consumer knows. -/
def Call.orderly (w : World) : Call → Prop
  | .producerFlow | .consumerOperations | .finishProcessWithBusinessStatus .. => True
  | .consumerErrorHandler _ => True
  | .retryProcess this _ | .resetProcess this _ => PassesAt [this.id] w
  | .createTask entry => ∃ (T : Type) (encodeToValue : T → Except Unit String) (id task : String)
    (runner : ProcessTrackerRunner) (tag : List String) (trackingData : T)
    (scheduleTime now : PrimitiveDateTime), ProcessTrackerNew.new encodeToValue id task runner tag
      trackingData scheduleTime now = .ok entry
  | .divideAndAppendTasks .. | .updateProcess .. => False

def inOrder (c : Config Command Reply World Call Result) (act : Action Choice Empty Call) : Prop :=
  Machine.oneAtATime c act ∧ ∀ p a, act = .spawn p a → a.orderly c.world

theorem new_passes {T : Type} {encodeToValue : T → Except Unit String} {id task : String}
    {runner : ProcessTrackerRunner} {tag : List String} {trackingData : T}
    {scheduleTime now : PrimitiveDateTime} {entry : ProcessTrackerNew}
    (built : ProcessTrackerNew.new encodeToValue id task runner tag trackingData scheduleTime now =
      .ok entry) : entry.row.passes := by
  rw [ProcessTrackerNew.new] at built
  split at built
  · cases built
  · cases built
    rfl

theorem program_alone (faithful : serde.Faithful) (conf : SchedulerSettings) {a : Call}
    (orderly : a.orderly w) :
    (alone serde p).Holds (fun _ _ => True) (a.program serde conf) w := by
  have ended : ∀ {ε : Type} {t : ExceptT ε SchedulerTask Unit} {f : Except ε Unit → Result},
      (alone serde p).Holds (fun _ _ => True) t.run w →
      (alone serde p).Holds (fun _ _ => True) (t.run.bind (.done ∘ f)) w :=
    fun h => .bind (h.mono fun _ _ _ => trivial)
  cases a with
  | producerFlow => exact ended (producerFlow_alone faithful conf)
  | consumerOperations => exact ended (harmless_alone consumerCommand_safe consumerOperations_every)
  | retryProcess this time =>
    refine ended (.bindExcept ((updateProcess_alone (fun _ => rfl) orderly).mono ?_))
    intro r w _
    cases r <;> trivial
  | resetProcess this time =>
    refine ended (.bindExcept ((updateProcess_alone (fun _ => rfl) orderly).mono ?_))
    intro r w _
    cases r <;> trivial
  | finishProcessWithBusinessStatus this status =>
    refine ended (harmless_alone (A := fun cmd => cmd = .now ∨ ∃ now, cmd = .updateById this.id
      (ProcessTrackerUpdate.toInternal now (.statusUpdate .finish (some status)))) ?_
      (Task.every_tryBind (updateProcess_every (.inl rfl) fun now => .inr ⟨now, rfl⟩)
        fun _ => trivial))
    rintro _ (rfl | ⟨now, rfl⟩) w
    · trivial
    · exact fun row _ _ => nofun
  | consumerErrorHandler process =>
    refine ended (harmless_alone (A := fun cmd => cmd = .now ∨ ∃ now,
      cmd = .updateProcessStatusByIds [process.id]
        (ProcessTrackerUpdate.toInternal now (.statusUpdate .finish (some "GLOBAL_ERROR")))) ?_
      (Task.every_tryBind (Task.every_changeContext (updateStatusByIds_every (.inl rfl)
        fun now => .inr ⟨now, rfl⟩)) fun _ => trivial))
    rintro _ (rfl | ⟨now, rfl⟩) w
    · trivial
    · exact fun row _ _ => nofun
  | createTask entry =>
    obtain ⟨_, _, _, _, _, _, _, _, _, built⟩ := orderly
    refine ended (harmless_alone (A := fun cmd => cmd = .insertProcess entry) ?_
      (Task.every_tryBind (Task.every_call rfl) fun _ => trivial))
    rintro _ rfl w
    exact new_passes built
  | divideAndAppendTasks | updateProcess => exact False.elim orderly

def operations (faithful : serde.Faithful) (conf : SchedulerSettings) :
    Discipline (machine serde conf) inOrder (.initial (.start .empty)) where
  inv := Orderly serde
  rely := fun _ w w' => w' = w
  guar := fun _ _ _ _ _ => True
  allow := fun _ _ _ _ => True
  post := fun _ _ _ _ => True
  rely_refl := fun _ _ => rfl
  rely_trans := fun _ _ _ _ h g => g.trans h
  starts := ⟨⟨nofun, nofun⟩, fun _ => rfl⟩
  allowed := fun _ _ => trivial
  spawned := fun _ _ _ met => program_alone faithful conf (met.2 _ _ rfl)
  others := by
    intro c p q a b cmd k cmd' k' o reached hp hq differ _ _
    have alone := reached.mono fun c act met => met.1
    exact absurd (alone.alone (fun _ => rfl) hp hq) differ
  env := fun {_ e _} _ _ _ _ => nomatch e
  kept := fun _ _ _ _ _ _ _ => trivial

/-- Every task that is still meant to run has a valid business status, and the consumer drops
none of the tasks that an entry of the stream holds. -/
theorem schedulable_passes (faithful : serde.Faithful)
    {c : Config Command Reply World Call Result}
    (reached : Machine.Reach (machine serde conf) inOrder (.initial (.start .empty)) c) :
    (∀ row ∈ c.world.table.rows,
      row.status = .new ∨ row.status = .pending ∨ row.status = .processing →
      row.businessStatus ∈ validBusinessStatuses) ∧
    ∀ e ∈ c.world.stream.entries, ∀ batch,
      ProcessTrackerBatch.fromRedisStreamEntry serde (readFields e.fields) = .ok batch →
        validTrackers [batch] = batch.trackers := by
  have orderly := ((operations faithful conf).sound reached).inv
  constructor
  · intro row mem due
    have schedulable : row.status.schedulable = true := by
      rcases due with same | same | same <;> rw [same] <;> rfl
    rw [passes_iff.mp (orderly.table row mem schedulable)]
    exact List.mem_singleton_self _
  · intro e he batch decoded
    simp only [validTrackers, List.flatMap_cons, List.flatMap_nil, List.append_nil]
    exact List.filter_eq_self.mpr (orderly.stream e he batch decoded)

end Runs

def dueNew : ProcessTrackerNew :=
  ⟨{ dueTask with name := some "SYNC", runner := some "PAYMENTS_SYNC_WORKFLOW" }⟩

theorem dueNew_built : ProcessTrackerNew.new (fun _ : Unit => .ok "null") "sync" "SYNC"
    .paymentsSyncWorkflow [] () 0 0 = .ok dueNew := rfl

theorem dueNew_orderly (w : World) : (Call.createTask dueNew).orderly w :=
  ⟨Unit, _, _, _, _, _, _, _, _, dueNew_built⟩

theorem dueNew_created (p : Nat) : Task.replay ((machine dueTaskSerde sampleSettings).exec p)
    ((machine dueTaskSerde sampleSettings).program (.createTask dueNew)) [{}] (.start .empty) =
      some (.stored (.ok ()), .start ⟨[dueNew.row], List.nodup_singleton _⟩) := rfl

/-- The row once it has been retried, and made `Processing` by the producer that appends it. -/
def retriedRow : ProcessTracker := { dueNew.row with retryCount := 1, status := .pending }

def syncText (retryCount status : String) : String :=
  "[\x7b\"id\":\"sync\",\"name\":\"SYNC\",\"tag\":[],\"runner\":\"PAYMENTS_SYNC_WORKFLOW\"," ++
    "\"retry_count\":" ++ retryCount ++ ",\"schedule_time\":\"1970-01-01T00:00:00.000Z\"," ++
    "\"rule\":\"\",\"tracking_data\":null,\"business_status\":\"Pending\",\"status\":\"" ++ status ++
    "\",\"event\":[],\"created_at\":\"1970-01-01T00:00:00.000Z\"," ++
    "\"updated_at\":\"1970-01-01T00:00:00.000Z\"\x7d]"

def syncSerde : Serde where
  toString trackers :=
    if trackers = [dueNew.row] then .ok (syncText "0" "new")
    else if trackers = [retriedRow] then .ok (syncText "1" "pending") else .error ()
  fromStr text :=
    if text = syncText "0" "new" then .ok [dueNew.row]
    else if text = syncText "1" "pending" then .ok [retriedRow] else .error ()

theorem syncSerde_faithful : syncSerde.Faithful where
  kept := by
    intro trackers text read encoded decoded
    have written : (trackers.map fun task => (task.id, task.businessStatus)) = [("sync", "Pending")] := by
      simp only [syncSerde] at encoded
      split at encoded
      · rename_i same
        rw [same]
        rfl
      · split at encoded
        · rename_i same
          rw [same]
          rfl
        · cases encoded
    rw [written]
    simp only [syncSerde] at decoded
    split at decoded
    · cases decoded
      rfl
    · split at decoded
      · cases decoded
        rfl
      · cases decoded

theorem reach_inOrder {serde : Serde} {conf : SchedulerSettings}
    (choose : Command → World → Choice) (calls : List Call)
    (each : (machine serde conf).Each choose (fun w a => a.orderly w) 0 calls (.start .empty)) :
    ∃ c, Machine.Reach (machine serde conf) inOrder (.initial (.start .empty)) c ∧
      c.world = ((machine serde conf).inTurn choose 0 calls (.start .empty)).2 := by
  refine Machine.reach_inTurn_quiet choose (fun w a => a.orderly w) ?_ ?_ calls
    (fun _ _ => rfl) (Machine.quiet_initial _) each
  · intro c p a quiet orderly
    refine ⟨quiet, ?_⟩
    rintro q b ⟨⟩
    exact orderly
  · exact fun _ _ _ _ _ => ⟨trivial, fun _ _ same => nomatch same⟩

def rescheduling : List Call :=
  [.createTask dueNew, .consumerOperations, .producerFlow, .consumerOperations,
    .retryProcess { dueNew.row with status := .processStarted } 0, .producerFlow,
    .consumerOperations, .resetProcess { retriedRow with status := .processStarted } 0]

theorem rescheduling_orderly : (machine syncSerde sampleSettings).Each (fun _ _ => {})
    (fun w a => a.orderly w) 0 (rescheduling ++ [.producerFlow]) (.start .empty) := by
  refine ⟨dueNew_orderly _, trivial, trivial, trivial, ?_, trivial, trivial, ?_, trivial, trivial⟩ <;>
    unfold Call.orderly PassesAt ProcessTracker.passes <;> decide +kernel

/-- Then the producer appends it for the third time. -/
theorem schedulable_passes_rescheduled :
    ∃ c, Machine.Reach (machine syncSerde sampleSettings) inOrder (.initial (.start .empty)) c ∧
      c.world = ((machine syncSerde sampleSettings).inTurn (fun _ _ => {}) 0
        (rescheduling ++ [.producerFlow]) (.start .empty)).2 ∧
      c.world.table.rows = [{ dueNew.row with status := .processing }] ∧
      c.world.stream.entries.length = 1 ∧
      ((∀ row ∈ c.world.table.rows,
        row.status = .new ∨ row.status = .pending ∨ row.status = .processing →
        row.businessStatus ∈ validBusinessStatuses) ∧
      ∀ e ∈ c.world.stream.entries, ∀ batch,
        ProcessTrackerBatch.fromRedisStreamEntry syncSerde (readFields e.fields) = .ok batch →
          validTrackers [batch] = batch.trackers) := by
  obtain ⟨c, reached, world⟩ := reach_inOrder (fun _ _ => {}) _ rescheduling_orderly
  refine ⟨c, reached, world, ?_, ?_, schedulable_passes syncSerde_faithful reached⟩ <;> rw [world]
  · decide +kernel
  · decide +kernel

def finishedRow : ProcessTracker :=
  { dueNew.row with status := .finish, businessStatus := "COMPLETED" }

def resetRow : ProcessTracker := { finishedRow with status := .new }

/-- A task is finished and then reset: it is new again, and the consumer would drop it. -/
theorem finished_then_reset :
    ∃ c₁ c₂ c₃ : Config Command Reply World Call Result,
      Machine.Reach (machine dueTaskSerde sampleSettings) Machine.oneAtATime
        (.initial (.start .empty)) c₁ ∧
      c₁.procs 0 = .live (.createTask dueNew) (.done (.stored (.ok ()))) ∧
      Machine.Reach (machine dueTaskSerde sampleSettings) Machine.oneAtATime c₁ c₂ ∧
      c₂.procs 1 = .live (.finishProcessWithBusinessStatus dueNew.row "COMPLETED")
        (.done (.stored (.ok ()))) ∧
      Machine.Reach (machine dueTaskSerde sampleSettings) Machine.oneAtATime c₂ c₃ ∧
      c₃.procs 2 = .live (.resetProcess dueNew.row 0) (.done (.stored (.ok ()))) ∧
      ∃ row ∈ c₃.world.table.rows, row.status = .new ∧
        row.businessStatus ∉ validBusinessStatuses := by
  have quiet := Machine.quiet_initial (C := Command) (R := Reply) (A := Call) (β := Result)
    (World.start .empty)
  have steps : ∀ p (c : Config Command Reply World Call Result) o,
      Machine.oneAtATime c (.step p o : Action Choice Empty Call) := fun _ _ _ => trivial
  obtain ⟨w₂, finished, rows₂⟩ : ∃ w₂, Task.replay
      ((machine dueTaskSerde sampleSettings).exec 1) ((machine dueTaskSerde sampleSettings).program
        (.finishProcessWithBusinessStatus dueNew.row "COMPLETED")) [{}, {}]
      (.start ⟨[dueNew.row], List.nodup_singleton _⟩) = some (.stored (.ok ()), w₂) ∧
      w₂.table = ⟨[finishedRow], List.nodup_singleton _⟩ := ⟨_, rfl, rfl⟩
  obtain ⟨w₃, reset, rows₃⟩ : ∃ w₃, Task.replay
      ((machine dueTaskSerde sampleSettings).exec 2) ((machine dueTaskSerde sampleSettings).program
        (.resetProcess dueNew.row 0)) [{}, {}] w₂ = some (.stored (.ok ()), w₃) ∧
      w₃.table.rows = [resetRow] := by
    obtain ⟨table, stream, group, log⟩ := w₂
    cases rows₂
    exact ⟨_, rfl, rfl⟩
  let c₁ : Config Command Reply World Call Result := Machine.afterCall (.initial (.start .empty)) 0
    (.createTask dueNew) (.stored (.ok ())) (.start ⟨[dueNew.row], List.nodup_singleton _⟩)
  let c₂ : Config Command Reply World Call Result := Machine.afterCall c₁ 1
    (.finishProcessWithBusinessStatus dueNew.row "COMPLETED") (.stored (.ok ())) w₂
  let c₃ : Config Command Reply World Call Result := Machine.afterCall c₂ 2
    (.resetProcess dueNew.row 0) (.stored (.ok ())) w₃
  have quiet₁ : Machine.Quiet c₁ := Machine.quiet_afterCall quiet
  have quiet₂ : Machine.Quiet c₂ := Machine.quiet_afterCall quiet₁
  have idle₁ : c₁.procs 1 = .idle := Machine.afterCall_other (by decide) _ _ _
  have idle₂ : c₂.procs 2 = .idle :=
    (Machine.afterCall_other (by decide) _ _ _).trans (Machine.afterCall_other (by decide) _ _ _)
  refine ⟨c₁, c₂, c₃, Machine.reach_call quiet (steps 0) rfl (dueNew_created 0),
    Machine.afterCall_self .., Machine.reach_call quiet₁ (steps 1) idle₁ finished,
    Machine.afterCall_self .., Machine.reach_call quiet₂ (steps 2) idle₂ reset,
    Machine.afterCall_self .., resetRow, ?_, rfl, by decide⟩
  have world : c₃.world = w₃ := rfl
  rw [world, rows₃]
  exact List.mem_singleton_self _

end Mercado.Scheduler
