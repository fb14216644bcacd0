import Mercado.Async.Rely
import Mercado.Scheduler.Commands
import Mercado.Scheduler.Effects

/-! What a flow of the scheduler may do, given what it has seen. It names only tasks that
it has fetched, read from the stream or been given, and it acknowledges and deletes only
entries that were delivered to it. -/
namespace Mercado.Scheduler
open Async Redis

def Call.names : Call → List String
  | .divideAndAppendTasks _ tasks => tasks.map ProcessTracker.id
  | .retryProcess this _ | .resetProcess this _ | .updateProcess this _ => [this.id]
  | _ => []

def ProcessTrackerUpdate.status : ProcessTrackerUpdate → Option ProcessTrackerStatus
  | .update _ _ _ _ _ status _ => status
  | .statusUpdate status _ | .statusRetryUpdate status _ _ => some status

@[simp] theorem ProcessTrackerUpdate.toInternal_status (u : ProcessTrackerUpdate)
    (now : PrimitiveDateTime) : (u.toInternal now).status = u.status := by
  cases u <;> rfl

section Protocol

variable (serde : Serde) (a : Call) (p : Nat)

def Seen (w : World) (id : String) : Prop :=
  (∃ ids, .fetched p ids ∈ w.log ∧ id ∈ ids) ∨
    ∃ e, .delivered p e ∈ w.log ∧ Contains serde e.fields id

def Known (w : World) (id : String) : Prop := id ∈ a.names ∨ Seen serde p w id

def permits (w : World) : Command → Prop
  | .findProcessesByTimeStatus _ _ status _ => status = .new ∨ status = .pending
  | .updateProcessStatusByIds ids u =>
    u.status = some .finish ∨ ∀ id ∈ ids, Known serde a p w id
  | .updateById id u => u.status = some .finish ∨ Known serde a p w id
  | .xadd fields => ∃ batch : ProcessTrackerBatch,
    batch.toRedisFieldValuePairs serde = .ok fields ∧
      ∀ task ∈ batch.trackers, Known serde a p w task.id
  | .startWorkflow process => Known serde a p w process.id
  | .xreadgroup _ => a = .consumerOperations
  | .xack ids => ∀ i ∈ ids, ∃ e, .delivered p e ∈ w.log ∧ e.id = i
  | .xdel ids => ∀ i ∈ ids, ∃ acked, .acknowledged p acked ∈ w.log ∧ i ∈ acked
  | _ => True

/-- What the process has left in the log stays there, and nothing new is delivered to it. -/
structure Extends (w w' : World) : Prop where
  kept : ∀ ev ∈ w.log, ev.client = p → ev ∈ w'.log
  delivered : ∀ e, .delivered p e ∈ w'.log → .delivered p e ∈ w.log

/-- What holds of a process as long as it reads nothing from the stream. -/
def Durable (I : World → Prop) : Prop := ∀ w w', Extends p w w' → I w → I w'

def flow : Setting Command Reply World Choice where
  exec := exec p
  inv := fun _ => True
  rely := Extends p
  guar := fun cmd w _ => permits serde a p w cmd
  allow := fun _ _ _ => True

end Protocol

section Durable

variable {serde : Serde} {a : Call} {p : Nat} {w w' u : World} {I J : World → Prop}

theorem Extends.refl (w : World) : Extends p w w := ⟨fun _ mem _ => mem, fun _ mem => mem⟩

theorem Extends.trans (h : Extends p w w') (g : Extends p w' u) : Extends p w u :=
  ⟨fun ev mem own => g.kept ev (h.kept ev mem own) own, fun e mem => h.delivered e (g.delivered e mem)⟩

theorem Effect.extends {cmd : Command} (h : Effect p cmd w w')
    (quiet : ∀ consumer, cmd ≠ .xreadgroup consumer) : Extends p w w' := by
  rcases h.log with same | ⟨ev, log, _, read⟩
  · constructor <;> simp +contextual [same]
  · constructor
    · intro ev' mem _
      simp [log, mem]
    · intro e mem
      simp only [log, List.mem_append, List.mem_singleton] at mem
      rcases mem with before | new
      · exact before
      · obtain ⟨consumer, same⟩ := read e new.symm
        exact absurd same (quiet consumer)

theorem Durable.anything : Durable p fun _ => True := fun _ _ _ _ => trivial

theorem Durable.and (hI : Durable p I) (hJ : Durable p J) : Durable p fun w => I w ∧ J w :=
  fun w w' moved h => ⟨hI w w' moved h.1, hJ w w' moved h.2⟩

theorem Durable.forall {ι : Sort*} {I : ι → World → Prop} (h : ∀ i, Durable p (I i)) :
    Durable p fun w => ∀ i, I i w :=
  fun w w' moved holds i => h i w w' moved (holds i)

theorem Durable.logged {ev : Event} (own : ev.client = p) : Durable p fun w => ev ∈ w.log :=
  fun _ _ moved mem => moved.kept _ mem own

theorem known_durable (id : String) : Durable p fun w => Known serde a p w id := by
  intro w w' moved known
  rcases known with named | ⟨ids, mem, fetched⟩ | ⟨e, mem, contains⟩
  · exact .inl named
  · exact .inr (.inl ⟨ids, moved.kept _ mem rfl, fetched⟩)
  · exact .inr (.inr ⟨e, moved.kept _ mem rfl, contains⟩)

theorem knownAll_durable (ids : List String) :
    Durable p fun w => ∀ id ∈ ids, Known serde a p w id :=
  .forall fun id => .forall fun _ => known_durable id

theorem call_answers (cmd : Command) {Q : Reply cmd → World → Prop} (durable : Durable p I)
    (quiet : ∀ consumer, cmd ≠ .xreadgroup consumer)
    (permitted : ∀ w, I w → permits serde a p w cmd)
    (answers : ∀ o w, I w → Q (exec p cmd o w).1 (exec p cmd o w).2) (holds : I w) :
    (flow serde a p).Holds (fun r w => I w ∧ Q r w) (call cmd) w := by
  refine .call (I := I) (fun w w' moved _ => durable w w' moved) ?_ holds
  intro w o _ _ holds
  refine ⟨permitted w holds, trivial, ?_, answers o w holds⟩
  exact durable w _ ((exec_effect p cmd o w).extends quiet) holds

theorem call_keeps (cmd : Command) (durable : Durable p I)
    (quiet : ∀ consumer, cmd ≠ .xreadgroup consumer)
    (permitted : ∀ w, I w → permits serde a p w cmd) (holds : I w) :
    (flow serde a p).Holds (fun _ => I) (call cmd) w :=
  (call_answers cmd durable quiet permitted (Q := fun _ _ => True) (fun _ _ _ => trivial) holds).mono
    fun _ _ h => h.1

/- The functions, from the bottom up. -/

theorem every_keeps {α : Type} {A : Command → Prop} {t : SchedulerTask α} (durable : Durable p I)
    (quiet : ∀ cmd, A cmd → ∀ consumer, cmd ≠ .xreadgroup consumer)
    (permitted : ∀ cmd, A cmd → ∀ w, I w → permits serde a p w cmd) (h : t.every A) (holds : I w) :
    (flow serde a p).Holds (fun _ => I) t w := by
  refine .every (fun w w' moved _ => durable w w' moved) ?_ h holds
  intro cmd allowed w o _ _ holds
  refine ⟨permitted cmd allowed w holds, trivial, ?_⟩
  exact durable w _ ((exec_effect p cmd o w).extends (quiet cmd allowed)) holds

theorem getRedisConn_keeps (durable : Durable p I) (holds : I w) :
    (flow serde a p).Holds (fun _ => I) getRedisConn.run w :=
  every_keeps durable (by rintro _ rfl; nofun) (by rintro _ rfl _ _; trivial)
    (getRedisConn_every rfl) holds

theorem updated_answer {ids : List String} {u : ProcessTrackerUpdateInternal} {o : Choice} {n : Nat}
    (ok : (exec p (.updateProcessStatusByIds ids u) o w).1 = .ok n) :
    .updated p ids u ∈ (exec p (.updateProcessStatusByIds ids u) o w).2.log := by
  by_cases empty : u.isEmpty
  · simp [exec, empty] at ok
  · simp only [exec, empty, Bool.false_eq_true, if_false] at ok ⊢
    rw [(Delivery.through_ok ok).2]
    exact List.mem_append_right _ (List.mem_singleton_self _)

theorem updateStatusByIds_holds {ids : List String} {u : ProcessTrackerUpdate}
    (durable : Durable p I)
    (named : ∀ w, I w → u.status = some .finish ∨ ∀ id ∈ ids, Known serde a p w id) (holds : I w) :
    (flow serde a p).Holds
      (fun r w => I w ∧ ∀ n, r = .ok n → ∃ now, .updated p ids (u.toInternal now) ∈ w.log)
      (processTrackerUpdateProcessStatusByIds ids u) w := by
  refine .bind ((call_keeps .now durable nofun (fun _ _ => trivial) holds).mono ?_)
  intro now w holds
  refine (call_answers (.updateProcessStatusByIds ids (u.toInternal now)) durable nofun ?_ (Q := fun r w => ∀ n, r = .ok n →
    .updated p ids (u.toInternal now) ∈ w.log) (fun _ _ _ _ ok => updated_answer ok) holds).mono ?_
  · intro w holds
    simpa only [permits, ProcessTrackerUpdate.toInternal_status] using named w holds
  · exact fun r w h => ⟨h.1, fun n ok => ⟨now, h.2 n ok⟩⟩

theorem updateProcess_holds {this : ProcessTracker} {u : ProcessTrackerUpdate}
    (named : u.status = some .finish ∨ this.id ∈ a.names) :
    (flow serde a p).Holds (fun _ _ => True) (updateProcess this u).run w := by
  refine .bind ((call_keeps .now .anything nofun (fun _ _ => trivial) trivial).mono ?_)
  intro now w _
  refine .bind ((call_keeps (.updateById this.id (u.toInternal now)) .anything nofun ?_
    trivial).mono fun _ _ _ => trivial)
  intro w _
  simp only [permits, ProcessTrackerUpdate.toInternal_status]
  exact named.imp_right .inl

theorem divideAndAppendTasks_keeps (conf : SchedulerSettings) (way : SchedulerFlow)
    {tasks : List ProcessTracker}
    (holds : ∀ id ∈ tasks.map ProcessTracker.id, Known serde a p w id) :
    (flow serde a p).Holds (fun _ _ => True) (divideAndAppendTasks serde conf way tasks).run w := by
  refine (every_keeps (knownAll_durable _) ?_ ?_ (divideAndAppendTasks_every way) holds).mono
    fun _ _ _ => trivial
  · rintro cmd allowed consumer rfl
    exact allowed
  · intro cmd allowed w known
    cases cmd with
    | updateProcessStatusByIds ids u => exact .inr fun id mem => known id (allowed.2 id mem)
    | xadd fields =>
      obtain ⟨batch, written, within⟩ := allowed
      exact ⟨batch, written, fun task ht => known _ (List.mem_map_of_mem (within task ht))⟩
    | isRedisAvailable | now | newUuid | reinitializeLimboProcesses => trivial
    | _ => exact False.elim allowed

theorem fetched_answer {lower upper : PrimitiveDateTime} {status : ProcessTrackerStatus}
    {limit : Option Nat} {o : Choice} {found : List ProcessTracker}
    (ok : (exec p (.findProcessesByTimeStatus lower upper status limit) o w).1 = .ok found) :
    ∀ id ∈ found.map ProcessTracker.id,
      Known serde a p (exec p (.findProcessesByTimeStatus lower upper status limit) o w).2 id := by
  intro id mem
  obtain ⟨rfl, after⟩ := Delivery.through_ok ok
  refine .inr (.inl ⟨_, ?_, mem⟩)
  simp only [exec, after]
  exact List.mem_append_right _ (List.mem_singleton_self _)

theorem fetchTasks_holds {lower upper : PrimitiveDateTime} {status : ProcessTrackerStatus}
    {e : ProcessTrackerError} (due : status = .new ∨ status = .pending) (durable : Durable p I)
    (holds : I w) :
    (flow serde a p).Holds
      (fun r w => I w ∧ ∀ found, r = .ok found → ∀ id ∈ found.map ProcessTracker.id,
        Known serde a p w id)
      (Task.changeContext e
        (call (.findProcessesByTimeStatus lower upper status none))).run w := by
  refine .changeContext ((call_answers (.findProcessesByTimeStatus lower upper status none) durable
    nofun (fun _ _ => due) (Q := fun r w => ∀ found, r = .ok found →
      ∀ id ∈ found.map ProcessTracker.id, Known serde a p w id)
    (fun _ _ _ _ ok => fetched_answer ok) holds).mono ?_)
  intro r w h
  refine ⟨h.1, fun found ok => ?_⟩
  cases r with
  | ok tasks => exact h.2 found (by simpa [Except.mapError] using ok)
  | error _ => cases ok

theorem fetchProducerTasks_holds (conf : SchedulerSettings) :
    (flow serde a p).Holds
      (fun r w => ∀ tasks, r = .ok tasks → ∀ id ∈ tasks.map ProcessTracker.id, Known serde a p w id)
      (fetchProducerTasks conf).run w := by
  refine .bindExcept (.lift ((call_keeps .now .anything nofun (fun _ _ => trivial) trivial).mono ?_))
  intro now w _
  simp only
  split
  · split
    · refine .bindExcept ((fetchTasks_holds (.inl rfl) .anything trivial).mono ?_)
      intro r w new
      cases r with
      | error e => nofun
      | ok newTasks =>
        refine .bindExcept ((fetchTasks_holds (.inr rfl) (knownAll_durable _)
          (new.2 newTasks rfl)).mono ?_)
        intro r w pending
        cases r with
        | error e => nofun
        | ok pendingTasks =>
          rintro tasks ⟨⟩ id mem
          rw [List.map_append] at mem
          rcases List.mem_append.mp mem with mem | mem
          · exact pending.1 id mem
          · exact pending.2 pendingTasks rfl id mem
    · nofun
  · nofun

theorem producerFlow_holds (conf : SchedulerSettings) :
    (flow serde a p).Holds (fun _ _ => True) (producerFlow serde conf).run w := by
  refine .bindExcept ((fetchProducerTasks_holds conf).mono ?_)
  intro r w known
  cases r with
  | error e => trivial
  | ok tasks => exact divideAndAppendTasks_keeps conf .producer (known tasks rfl)

end Durable

/- The consumer. It reads once. -/

section Consumer

variable (serde : Serde) (p : Nat)

def NoneRead (w : World) : Prop := ∀ e, .delivered p e ∉ w.log

def Read (w : World) (e : Entry FieldValuePairs) : Prop :=
  .delivered p e ∈ w.log ∧ ∀ e', .delivered p e' ∈ w.log → e' = e

def startedUpdate (now : PrimitiveDateTime) : ProcessTrackerUpdateInternal :=
  ProcessTrackerUpdate.toInternal now (.statusUpdate .processStarted none)

def pickedUp (task : ProcessTracker) : ProcessTracker := { task with status := .processStarted }

/-- The entry decodes to a batch, its valid trackers were marked as picked up, and their
workflows started. -/
def Handled (w : World) (e : Entry FieldValuePairs) : Prop :=
  ∃ batch ids now, ProcessTrackerBatch.fromRedisStreamEntry serde (readFields e.fields) = .ok batch ∧
    .updated p ids (startedUpdate now) ∈ w.log ∧
    ∀ task ∈ validTrackers [batch], task.id ∈ ids ∧ .started p (pickedUp task) ∈ w.log

variable {serde p} {w : World} {I : World → Prop}

theorem noneRead_durable : Durable p (NoneRead p) :=
  fun _ _ moved none e mem => none e (moved.delivered e mem)

theorem read_durable (e : Entry FieldValuePairs) : Durable p fun w => Read p w e :=
  fun _ _ moved read =>
    ⟨moved.kept _ read.1 rfl, fun e' mem => read.2 e' (moved.delivered e' mem)⟩

def ReadReply (r : Except RedisError (List (Entry FieldValuePairs))) (w : World) : Prop :=
  (r = .error .streamEmptyOrNotAvailable → NoneRead p w) ∧
    ∀ entries, r = .ok entries → ∃ e, entries = [e] ∧ Read p w e

theorem xreadgroup_answer {consumer : String} {o : Choice} (none : NoneRead p w) :
    @ReadReply p (exec p (.xreadgroup consumer) o w).1 (exec p (.xreadgroup consumer) o w).2 := by
  simp only [exec]
  have failed : ∀ {err} {w' : World}, err ≠ .streamEmptyOrNotAvailable →
      @ReadReply p (.error err) w' := by
    intro err w' other
    refine ⟨fun same => absurd (Except.error.inj same) other, fun entries ok => ?_⟩
    cases ok
  split
  · exact failed (by decide)
  · rename_i g group
    split
    · refine ⟨fun _ => none, ?_⟩
      intro entries ok
      split at ok <;> cases ok
    · rename_i entry next
      have read : Read p (w.deliver p consumer g entry) entry := by
        constructor
        · exact List.mem_append_right _ (List.mem_singleton_self _)
        · intro e' mem
          rcases List.mem_append.mp mem with before | new
          · exact absurd before (none e')
          · cases List.mem_singleton.mp new
            rfl
      cases o.redis with
      | answered =>
        refine ⟨fun same => ?_, ?_⟩
        · cases same
        · rintro entries ⟨⟩
          exact ⟨entry, rfl, read⟩
      | lost | unanswered => exact failed (by decide)

theorem xreadgroup_holds {consumer : String} (none : NoneRead p w) :
    (flow serde .consumerOperations p).Holds (@ReadReply p) (call (.xreadgroup consumer)) w := by
  refine .call (I := NoneRead p) (fun w w' moved _ => noneRead_durable w w' moved) ?_ none
  intro w o _ _ none
  exact ⟨rfl, trivial, xreadgroup_answer none⟩

theorem acknowledged_answer {ids : List Nat} {o : Choice} {n : Nat}
    (ok : (exec p (.xack ids) o w).1 = .ok n) :
    .acknowledged p ids ∈ (exec p (.xack ids) o w).2.log := by
  simp only [exec]
  rw [(Delivery.through_ok ok).2]
  exact List.mem_append_right _ (List.mem_singleton_self _)

def Taken (batches : List ProcessTrackerBatch) (w : World) : Prop :=
  (batches = [] ∧ NoneRead p w) ∨
    ∃ e batch, batches = [batch] ∧ Read p w e ∧
      ProcessTrackerBatch.fromRedisStreamEntry serde (readFields e.fields) = .ok batch

theorem getBatches_holds {consumer : String} (none : NoneRead p w) :
    (flow serde .consumerOperations p).Holds
      (fun r w => ∀ batches, r = .ok batches → @Taken serde p batches w)
      (getBatches serde consumer).run w := by
  refine .bindExcept (.lift ((xreadgroup_holds none).mono ?_))
  rintro r w ⟨empty, answered⟩
  cases r with
  | error err =>
    by_cases nothing : err = .streamEmptyOrNotAvailable
    · subst nothing
      rintro batches ⟨⟩
      exact .inl ⟨rfl, empty rfl⟩
    · cases err with
      | streamEmptyOrNotAvailable => exact absurd rfl nothing
      | _ => nofun
  | ok entries =>
    obtain ⟨e, rfl, read⟩ := answered entries rfl
    refine .bindExcept ?_
    cases decoded : ProcessTrackerBatch.fromRedisStreamEntry serde (readFields e.fields) with
    | error err =>
      simp only [List.mapM_cons, decoded]
      nofun
    | ok batch =>
      simp only [List.mapM_cons, decoded]
      refine .bindExcept (.changeContext ((call_answers (.xack [e.id]) (read_durable e) nofun ?_
        (Q := fun r w => ∀ n, r = .ok n → .acknowledged p [e.id] ∈ w.log)
        (fun _ _ _ _ ok => acknowledged_answer ok) read).mono ?_))
      · rintro w read i mem
        exact ⟨e, read.1, (List.mem_singleton.mp mem).symm⟩
      · rintro r w ⟨read, acked⟩
        cases r with
        | error err => nofun
        | ok n =>
          have durable : Durable p fun w => Read p w e ∧ .acknowledged p [e.id] ∈ w.log :=
            (read_durable e).and (.logged rfl)
          refine .bindExcept (.changeContext ((call_keeps (.xdel [e.id]) durable nofun ?_
            ⟨read, acked n rfl⟩).mono ?_))
          · rintro w ⟨_, acked⟩ i mem
            exact ⟨[e.id], acked, mem⟩
          · rintro r w ⟨read, _⟩
            cases r with
            | error err => nofun
            | ok n =>
              rintro batches ⟨⟩
              exact .inr ⟨e, batch, rfl, read, decoded⟩

def Picked (tasks : List ProcessTracker) (w : World) : Prop :=
  (∀ e, .delivered p e ∈ w.log → ∃ batch ids now,
    ProcessTrackerBatch.fromRedisStreamEntry serde (readFields e.fields) = .ok batch ∧
      .updated p ids (startedUpdate now) ∈ w.log ∧
      ∀ task ∈ validTrackers [batch], task.id ∈ ids ∧ pickedUp task ∈ tasks) ∧
    ∀ task ∈ tasks, Known serde .consumerOperations p w task.id

theorem picked_durable (tasks : List ProcessTracker) : Durable p (@Picked serde p tasks) := by
  intro w w' moved ⟨picked, known⟩
  constructor
  · intro e mem
    obtain ⟨batch, ids, now, decoded, updated, valid⟩ := picked e (moved.delivered e mem)
    exact ⟨batch, ids, now, decoded, moved.kept _ updated rfl, valid⟩
  · exact fun task mem => known_durable task.id w w' moved (known task mem)

theorem fetchConsumerTasks_holds {consumer : String} (none : NoneRead p w) :
    (flow serde .consumerOperations p).Holds
      (fun r w => ∀ tasks, r = .ok tasks → @Picked serde p tasks w)
      (fetchConsumerTasks serde consumer).run w := by
  refine .bindExcept (.changeContext ((getRedisConn_keeps noneRead_durable none).mono ?_))
  intro r w none
  cases r with
  | error e => nofun
  | ok =>
    refine .bindExcept ((getBatches_holds none).mono ?_)
    intro r w taken
    cases r with
    | error e => nofun
    | ok batches =>
      rcases taken batches rfl with ⟨rfl, none⟩ | ⟨e, batch, rfl, read, decoded⟩
      · rintro tasks ⟨⟩
        exact ⟨fun e mem => absurd mem (none e), nofun⟩
      · have known : ∀ w, Read p w e → ∀ task ∈ validTrackers [batch],
            Known serde .consumerOperations p w task.id := by
          intro w read task mem
          have tracker : task ∈ batch.trackers := by
            simp only [validTrackers, List.flatMap_cons, List.flatMap_nil, List.append_nil] at mem
            exact List.mem_of_mem_filter mem
          exact .inr (.inr ⟨e, read.1, decoded_contains decoded tracker⟩)
        refine .bindExcept (.changeContext ((updateStatusByIds_holds (read_durable e) ?_ read).mono ?_))
        · intro w read
          refine .inr fun id mem => ?_
          obtain ⟨task, ht, rfl⟩ := List.mem_map.mp mem
          exact known w read task ht
        · rintro r w ⟨read, updated⟩
          cases r with
          | error e => nofun
          | ok n =>
            obtain ⟨now, updated⟩ := updated n rfl
            rintro tasks ⟨⟩
            constructor
            · intro e' mem
              cases read.2 e' mem
              exact ⟨batch, _, now, decoded, updated, fun task mem =>
                ⟨List.mem_map_of_mem mem, List.mem_map_of_mem mem⟩⟩
            · intro task mem
              obtain ⟨task, ht, rfl⟩ := List.mem_map.mp mem
              exact known w read task ht

theorem startWorkflows_holds (started : List ProcessTracker) {tasks : List ProcessTracker}
    (picked : @Picked serde p (started ++ tasks) w)
    (begun : ∀ task ∈ started, .started p task ∈ w.log) :
    (flow serde .consumerOperations p).Holds
      (fun _ w => @Picked serde p (started ++ tasks) w ∧
        ∀ task ∈ started ++ tasks, .started p task ∈ w.log)
      (startWorkflows tasks) w := by
  induction tasks generalizing started w with
  | nil => exact ⟨picked, by simpa using begun⟩
  | cons task tasks ih =>
    have durable : Durable p fun w => @Picked serde p (started ++ task :: tasks) w ∧
        ∀ task ∈ started, .started p task ∈ w.log :=
      (picked_durable _).and (.forall fun _ => .forall fun _ => .logged rfl)
    refine .bind ((call_answers (.startWorkflow task) durable nofun ?_
      (Q := fun _ w => .started p task ∈ w.log) ?_ ⟨picked, begun⟩).mono ?_)
    · exact fun w h => h.1.2 task (by simp)
    · exact fun o w _ => List.mem_append_right _ (List.mem_singleton_self _)
    · rintro r w ⟨⟨picked, begun⟩, new⟩
      have shift : started ++ task :: tasks = (started ++ [task]) ++ tasks := by simp
      rw [shift] at picked ⊢
      refine ih (started ++ [task]) picked fun t mem => ?_
      rcases List.mem_append.mp mem with before | last
      · exact begun t before
      · cases List.mem_singleton.mp last
        exact new

theorem consumerGroupCreate_keeps (durable : Durable p I) (holds : I w) :
    (flow serde .consumerOperations p).Holds (fun _ => I) consumerGroupCreate.run w := by
  refine every_keeps (A := fun cmd => cmd = .isRedisAvailable ∨ cmd = .xgroupCreate) durable ?_ ?_
    (consumerGroupCreate_every (.inl rfl) (.inr rfl)) holds
  · rintro _ (rfl | rfl) <;> nofun
  · rintro _ (rfl | rfl) _ _ <;> trivial

/-- A consumer run that returns without an error has handled what it has read. -/
theorem consumerOperations_holds (none : NoneRead p w) :
    (flow serde .consumerOperations p).Holds
      (fun r w => r = .ok () → ∀ e, .delivered p e ∈ w.log → Handled serde p w e)
      (consumerOperations serde).run w := by
  refine .bindExcept (.lift ((call_keeps .newUuid noneRead_durable nofun (fun _ _ => trivial)
    none).mono ?_))
  intro uuid w none
  refine .bindExcept (.lift ((consumerGroupCreate_keeps noneRead_durable none).mono ?_))
  intro r w none
  refine .bindExcept ((fetchConsumerTasks_holds none).mono ?_)
  intro r w picked
  cases r with
  | error e => nofun
  | ok tasks =>
    refine .lift ((startWorkflows_holds [] (picked tasks rfl) nofun).mono ?_)
    rintro r w ⟨⟨picked, _⟩, started⟩ _ e mem
    obtain ⟨batch, ids, now, decoded, updated, valid⟩ := picked e mem
    refine ⟨batch, ids, now, decoded, updated, fun task ht => ?_⟩
    exact ⟨(valid task ht).1, started _ (valid task ht).2⟩

end Consumer

section Flows

variable {serde : Serde} {conf : SchedulerSettings} {table : Table} {p : Nat} {w w' : World}

def Done (serde : Serde) (p : Nat) (a : Call) (r : Result) (w : World) : Prop :=
  a = .consumerOperations → r = .flow (.ok ()) → ∀ e, .delivered p e ∈ w.log → Handled serde p w e

theorem done_durable {a : Call} {r : Result} : Durable p (Done serde p a r) := by
  intro w w' moved done call ok e mem
  obtain ⟨batch, ids, now, decoded, updated, valid⟩ := done call ok e (moved.delivered e mem)
  refine ⟨batch, ids, now, decoded, moved.kept _ updated rfl, fun task ht => ?_⟩
  exact ⟨(valid task ht).1, moved.kept _ (valid task ht).2 rfl⟩

theorem program_holds (a : Call) (none : NoneRead p w) :
    (flow serde a p).Holds (Done serde p a) (a.program serde conf) w := by
  -- an operation on one row is one update, and its result says nothing about the stream
  have single : ∀ {a : Call} {this : ProcessTracker} {u : ProcessTrackerUpdate},
      a ≠ .consumerOperations → (u.status = some .finish ∨ this.id ∈ a.names) →
      (flow serde a p).Holds (fun r w => Done serde p a (.stored r) w)
        (do let _ ← updateProcess this u; return () : ExceptT StorageError SchedulerTask Unit).run w := by
    intro a this u other named
    refine .bindExcept ((updateProcess_holds named).mono ?_)
    intro r w _
    cases r <;> exact fun call => absurd call other
  cases a with
  | producerFlow => exact .bind ((producerFlow_holds conf).mono fun _ _ _ => nofun)
  | divideAndAppendTasks way tasks =>
    have known : ∀ id ∈ tasks.map ProcessTracker.id,
        Known serde (.divideAndAppendTasks way tasks) p w id := fun id mem => .inl mem
    exact .bind ((divideAndAppendTasks_keeps conf way known).mono fun _ _ _ => nofun)
  | consumerOperations =>
    refine .bind ((consumerOperations_holds none).mono ?_)
    rintro r w handled _ ⟨⟩
    exact handled rfl
  | retryProcess this time => exact .bind (single nofun (.inr (List.mem_singleton_self _)))
  | resetProcess this time => exact .bind (single nofun (.inr (List.mem_singleton_self _)))
  | finishProcessWithBusinessStatus this status => exact .bind (single nofun (.inl rfl))
  | updateProcess this u =>
    exact .bind ((updateProcess_holds (.inr (List.mem_singleton_self _))).mono fun _ _ _ => nofun)
  | consumerErrorHandler process =>
    refine .bind (.bindExcept (.changeContext ((updateStatusByIds_holds .anything
      (fun _ _ => .inl rfl) trivial).mono ?_)))
    intro r w _
    cases r <;> nofun
  | createTask entry =>
    refine .bind (.bindExcept ((call_keeps (.insertProcess entry) .anything nofun
      (fun _ _ => trivial) trivial).mono ?_))
    intro r w _
    cases r <;> nofun

theorem extends_of_own (own : ownEvents (fun ev => some ev.client) p w'.log =
    ownEvents (fun ev => some ev.client) p w.log) : Extends p w w' := by
  have same : ∀ ev : Event, ev.client = p → (ev ∈ w'.log ↔ ev ∈ w.log) := by
    intro ev mine
    have := congrArg (ev ∈ ·) own
    simpa [mem_ownEvents, mine] using this
  exact ⟨fun ev mem mine => (same ev mine).mpr mem, fun e mem => (same _ rfl).mp mem⟩

def flows (serde : Serde) (conf : SchedulerSettings) (table : Table) :
    Discipline (machine serde conf) Machine.anyStep (.initial (.start table)) where
  inv := fun _ => True
  rely := Extends
  guar := fun p a cmd w _ => permits serde a p w cmd
  allow := fun _ _ _ _ => True
  post := Done serde
  rely_refl := fun _ => .refl
  rely_trans := fun _ _ _ _ => .trans
  starts := ⟨trivial, fun _ => rfl⟩
  allowed := fun _ _ => trivial
  spawned := by
    intro c p a reached _ idle _
    refine program_holds a fun e mem => ?_
    have silent := (history serde conf).idle_silent reached (fun _ => rfl) p idle
    exact List.ne_nil_of_mem (mem_ownEvents.mpr ⟨mem, rfl⟩) silent
  others := by
    intro c p q a b cmd k cmd' k' o _ _ _ differ _ _
    exact extends_of_own ((history serde conf).exec_other (Ne.symm differ) cmd o c.world)
  env := fun {_ e _} _ _ _ _ => nomatch e
  kept := by
    intro q b r c act d _ _ hs _ _ returned done
    exact done_durable _ _ (extends_of_own ((history serde conf).step_other hs
      (Machine.step_done hs returned))) done

variable {c : Config Command Reply World Call Result} {a : Call}

theorem reach_permits
    (reached : Machine.Reach (machine serde conf) Machine.anyStep (.initial (.start table)) c)
    {cmd : Command} {k : Reply cmd → SchedulerTask Result}
    (live : c.procs p = .live a (.await cmd k)) : permits serde a p c.world cmd :=
  (((flows serde conf table).sound reached).holds p a _ live c.world (.refl _) trivial {}
    trivial).1

theorem reach_handled
    (reached : Machine.Reach (machine serde conf) Machine.anyStep (.initial (.start table)) c)
    (returned : c.procs p = .live .consumerOperations (.done (.flow (.ok ()))))
    {e : Entry FieldValuePairs} (read : .delivered p e ∈ c.world.log) :
    Handled serde p c.world e :=
  ((flows serde conf table).sound reached).holds p _ _ returned rfl rfl e read

end Flows

end Mercado.Scheduler
