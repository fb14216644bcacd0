import Mathlib.Algebra.GroupWithZero.Nat
import Mercado.Scheduler.Commands
import Mercado.Scheduler.Protocol

/-! How often a task comes to the stream: at most as often as it was scheduled. It is scheduled
when it is inserted and when an update makes it `New` or `Pending` again. -/
namespace Mercado.Scheduler
open Async Redis Results

section Counts

variable (serde : Serde) (id : String)

def trackerIds (fields : FieldValuePairs) : List String :=
  match ProcessTrackerBatch.getRequiredValue (readFields fields) "trackers" with
  | .error _ => []
  | .ok text =>
    match ProcessTrackerBatch.parseTrackers serde text with
    | .error _ => []
    | .ok trackers => trackers.map ProcessTracker.id

def appends (log : List Event) : Nat :=
  (log.map fun
    | .appended _ e => (trackerIds serde e.fields).count id
    | _ => 0).sum

def ProcessTrackerStatus.due : ProcessTrackerStatus → Bool
  | .new | .pending => true
  | _ => false

def reschedules (log : List Event) : Nat :=
  log.countP fun
    | .updated _ ids u => decide (id ∈ ids) && u.status.any ProcessTrackerStatus.due
    | _ => false

/-- How often the task was scheduled, as far as the run knows: a row there is counts once. -/
def scheduled (w : World) : Nat :=
  (if (w.table.find id).isSome then 1 else 0) + reschedules id w.log

@[simp] theorem appends_append (log more : List Event) :
    appends serde id (log ++ more) = appends serde id log + appends serde id more := by
  simp [appends]

@[simp] theorem reschedules_append (log more : List Event) :
    reschedules id (log ++ more) = reschedules id log + reschedules id more := by
  simp [reschedules]

end Counts

theorem trackerIds_batch {serde : Serde} (faithful : serde.Faithful) {batch : ProcessTrackerBatch}
    {fields : FieldValuePairs} (written : batch.toRedisFieldValuePairs serde = .ok fields)
    (id : String) :
    (trackerIds serde fields).count id ≤ (batch.trackers.map ProcessTracker.id).count id := by
  obtain ⟨text, encoded, found⟩ := trackers_written written
  have read : trackerIds serde fields =
      match ProcessTrackerBatch.parseTrackers serde text with
      | .error _ => []
      | .ok trackers => trackers.map ProcessTracker.id := by
    rw [trackerIds, found]
  rw [read]
  cases parsed : ProcessTrackerBatch.parseTrackers serde text with
  | error e => exact Nat.zero_le _
  | ok trackers =>
    have ids := faithful.ids encoded (ProcessTrackerBatch.parseTrackers_ok.mp parsed)
    exact Nat.le_of_eq (congrArg (List.count id) ids)

/-- A step that puts no task on the stream: a task that is due after it was due before, or has
been scheduled once more. -/
structure Quietly (serde : Serde) (w w' : World) : Prop where
  same : ∀ id, appends serde id w'.log = appends serde id w.log
  grows : ∀ id, scheduled id w ≤ scheduled id w'
  due : ∀ id s, s.due = true → w'.table.status id = some s →
    w.table.status id = some s ∨ scheduled id w < scheduled id w'

/-- A task that is due has been scheduled once more than it was appended. -/
structure Accounted (serde : Serde) (w : World) : Prop where
  bounded : ∀ id, appends serde id w.log ≤ scheduled id w
  due : ∀ id s, s.due = true → w.table.status id = some s →
    appends serde id w.log + 1 ≤ scheduled id w

section Quiet

variable {serde : Serde} {w w' u : World}

theorem Quietly.refl : Quietly serde w w :=
  ⟨fun _ => rfl, fun _ => Nat.le_refl _, fun _ _ _ status => .inl status⟩

theorem Quietly.trans (h : Quietly serde w w') (g : Quietly serde w' u) : Quietly serde w u := by
  refine ⟨fun id => (g.same id).trans (h.same id),
    fun id => Nat.le_trans (h.grows id) (g.grows id), fun id s due status => ?_⟩
  rcases g.due id s due status with before | more
  · rcases h.due id s due before with first | more
    · exact .inl first
    · exact .inr (Nat.lt_of_lt_of_le more (g.grows id))
  · exact .inr (Nat.lt_of_le_of_lt (h.grows id) more)

theorem Accounted.quietly (h : Accounted serde w) (quiet : Quietly serde w w') :
    Accounted serde w' := by
  refine ⟨fun id => ?_, fun id s due status => ?_⟩
  · rw [quiet.same]
    exact Nat.le_trans (h.bounded id) (quiet.grows id)
  · rw [quiet.same]
    rcases quiet.due id s due status with before | more
    · exact Nat.le_trans (h.due id s due before) (quiet.grows id)
    · exact Nat.lt_of_le_of_lt (h.bounded id) more

def Event.counts : Event → Bool
  | .appended .. | .updated .. => true
  | _ => false

theorem Quietly.of_log (table : w'.table = w.table)
    (log : w'.log = w.log ∨ ∃ ev, w'.log = w.log ++ [ev] ∧ ev.counts = false) :
    Quietly serde w w' := by
  have same : (∀ id, appends serde id w'.log = appends serde id w.log) ∧
      ∀ id, reschedules id w'.log = reschedules id w.log := by
    rcases log with same | ⟨ev, log, silent⟩
    · rw [same]
      exact ⟨fun _ => rfl, fun _ => rfl⟩
    · rw [log]
      refine ⟨fun id => ?_, fun id => ?_⟩
      · rw [appends_append]
        cases ev with
        | appended => cases silent
        | _ => rfl
      · rw [reschedules_append]
        cases ev with
        | updated => cases silent
        | _ => rfl
  refine ⟨same.1, fun id => ?_, fun id s _ status => ?_⟩
  · exact Nat.le_of_eq (by rw [scheduled, scheduled, same.2, table])
  · rw [table] at status
    exact .inl status

theorem Quietly.update (p : Nat) (ids : List String) (u : ProcessTrackerUpdateInternal) :
    Quietly serde w (w.update p ids u) := by
  have found : ∀ id, ((w.table.updateByIds ids u).find id).isSome = (w.table.find id).isSome := by
    intro id
    rw [Table.updateByIds, Table.find_updateWhere, Option.isSome_map]
  have counted : ∀ id, scheduled id (w.update p ids u) =
      scheduled id w + reschedules id [.updated p ids u] := by
    intro id
    simp only [scheduled, World.update, found, reschedules_append, Nat.add_assoc]
  refine ⟨fun id => by simp [World.update, appends], fun id => by rw [counted]; omega, ?_⟩
  intro id s due status
  rw [World.update, Table.status_updateByIds] at status
  obtain ⟨before, was, status⟩ := Option.map_eq_some_iff.mp status
  by_cases named : id ∈ ids
  · rw [if_pos named] at status
    cases set : u.status with
    | none =>
      rw [set, Option.getD_none] at status
      exact .inl (status ▸ was)
    | some t =>
      rw [set, Option.getD_some] at status
      subst status
      right
      rw [counted]
      simp [reschedules, named, set, due]
  · rw [if_neg named] at status
    exact .inl (status ▸ was)

theorem Quietly.reinitialized (ids : List String) (time : PrimitiveDateTime) :
    Quietly serde w { w with table := w.table.reinitialize ids time } := by
  refine ⟨fun _ => rfl, fun id => ?_, fun id s due status => .inl ?_⟩
  · simp only [scheduled, Table.reinitialize, Table.find_updateWhere, Option.isSome_map]
    exact Nat.le_refl _
  · rw [Table.status, Table.reinitialize, Table.find_updateWhere, Option.map_map] at status
    obtain ⟨row, found, status⟩ := Option.map_eq_some_iff.mp status
    rw [Table.status, found, Option.map_some, ← status, Function.comp_apply]
    split
    · rename_i limbo
      rw [Function.comp_apply, if_pos limbo] at status
      rw [← status] at due
      cases due
    · rfl

theorem Quietly.insert {new : ProcessTrackerNew} {table : Table}
    (free : w.table.insert new = some table) : Quietly serde w { w with table := table } := by
  have found : ∀ id, table.find id = (w.table.find id).or
      (if new.row.id = id then some new.row else none) := by
    intro id
    rw [Table.find, Table.insert_rows free, List.find?_append, Table.find]
    by_cases same : new.row.id = id
    · simp [same]
    · simp [same]
  refine ⟨fun _ => rfl, fun id => ?_, fun id s due status => ?_⟩
  · simp only [scheduled, found]
    cases w.table.find id with
    | none =>
      simp
    | some row => simp
  · rw [Table.status, found] at status
    cases before : w.table.find id with
    | some row =>
      rw [before] at status
      exact .inl (by rw [Table.status, before]; exact status)
    | none =>
      right
      rw [before, Option.none_or] at status
      split at status
      · rename_i new
        simp [scheduled, found, before, new]
      · cases status

theorem Effect.quietly {p : Nat} {cmd : Command} (h : Effect p cmd w w')
    (other : ∀ fields, cmd ≠ .xadd fields) : Quietly serde w w' := by
  cases h with
  | nothing => exact .refl
  | updated | updatedOne => exact .update ..
  | reinitialized => exact .reinitialized ..
  | inserted free => exact .insert free
  | appended => exact absurd rfl (other _)
  | fetched | groupCreated | delivered | acknowledged | started =>
    exact .of_log rfl (.inr ⟨_, rfl, rfl⟩)
  | deleted => exact .of_log rfl (.inl rfl)

end Quiet

section Producer

variable {serde : Serde} {p : Nat} {w w' : World} {ids : List String}

/-- Tasks that a producer may still put on the stream, each as often as it is named. -/
def Held (serde : Serde) (ids : List String) (w : World) : Prop :=
  ∀ id, appends serde id w.log + ids.count id ≤ scheduled id w

/-- Tasks that were `New` when they were fetched; one that is `Pending` now was scheduled since. -/
def FetchedNew (serde : Serde) (ids : List String) (w : World) : Prop :=
  ids.Nodup ∧ ∀ id ∈ ids, appends serde id w.log + 1 ≤ scheduled id w ∧
    (w.table.status id = some .pending → appends serde id w.log + 2 ≤ scheduled id w)

/-- Tasks that were marked; one that is due now was scheduled since. -/
def Marked (serde : Serde) (batch rest : List String) (w : World) : Prop :=
  Held serde (batch ++ rest) w ∧ ∀ id ∈ batch, ∀ s, s.due = true → w.table.status id = some s →
    appends serde id w.log + (batch ++ rest).count id + 1 ≤ scheduled id w

theorem Held.quietly (h : Held serde ids w) (quiet : Quietly serde w w') : Held serde ids w' := by
  intro id
  rw [quiet.same]
  exact Nat.le_trans (h id) (quiet.grows id)

theorem FetchedNew.quietly (h : FetchedNew serde ids w) (quiet : Quietly serde w w') :
    FetchedNew serde ids w' := by
  refine ⟨h.1, fun id mem => ?_⟩
  obtain ⟨once, twice⟩ := h.2 id mem
  rw [quiet.same]
  refine ⟨Nat.le_trans once (quiet.grows id), fun pending => ?_⟩
  rcases quiet.due id .pending rfl pending with before | more
  · exact Nat.le_trans (twice before) (quiet.grows id)
  · omega

theorem Marked.quietly {batch rest : List String} (h : Marked serde batch rest w)
    (quiet : Quietly serde w w') : Marked serde batch rest w' := by
  refine ⟨h.1.quietly quiet, fun id mem s due status => ?_⟩
  rw [quiet.same]
  rcases quiet.due id s due status with before | more
  · exact Nat.le_trans (h.2 id mem s due before) (quiet.grows id)
  · have := h.1 id
    omega

theorem Held.drop {batch rest : List String} (h : Held serde (batch ++ rest) w) :
    Held serde rest w := by
  intro id
  have := h id
  rw [List.count_append] at this
  omega

theorem FetchedNew.held {new pending : List String} (h : FetchedNew serde new w)
    (accounted : Accounted serde w) (distinct : pending.Nodup)
    (status : ∀ id ∈ pending, w.table.status id = some .pending) :
    Held serde (new ++ pending) w := by
  intro id
  rw [List.count_append]
  have newOnce := List.nodup_iff_count_le_one.mp h.1 id
  have pendingOnce := List.nodup_iff_count_le_one.mp distinct id
  by_cases isNew : id ∈ new
  · obtain ⟨once, twice⟩ := h.2 id isNew
    by_cases isPending : id ∈ pending
    · have := twice (status id isPending)
      omega
    · rw [List.count_eq_zero_of_not_mem isPending]
      omega
  · rw [List.count_eq_zero_of_not_mem isNew]
    by_cases isPending : id ∈ pending
    · have := accounted.due id .pending rfl (status id isPending)
      omega
    · rw [List.count_eq_zero_of_not_mem isPending]
      exact accounted.bounded id

theorem Marked.append {batch rest : List String} {gap : Nat} {fields : FieldValuePairs}
    (h : Marked serde batch rest w) (accounted : Accounted serde w)
    (trackers : ∀ id, (trackerIds serde fields).count id ≤ batch.count id) :
    Accounted serde (w.append p gap fields) ∧ Held serde rest (w.append p gap fields) := by
  have counted : ∀ id, appends serde id (w.append p gap fields).log =
      appends serde id w.log + (trackerIds serde fields).count id := by
    intro id
    simp [World.append, appends, Stream.added]
  have same : ∀ id, scheduled id (w.append p gap fields) = scheduled id w := by
    intro id
    rw [scheduled, scheduled, World.append, reschedules_append]
    rfl
  refine ⟨⟨fun id => ?_, fun id s due status => ?_⟩, fun id => ?_⟩ <;> rw [counted, same] <;>
    have fewer := trackers id
  · have := h.1 id
    rw [List.count_append] at this
    omega
  · by_cases marked : id ∈ batch
    · have := h.2 id marked s due status
      rw [List.count_append] at this
      omega
    · rw [List.count_eq_zero_of_not_mem marked] at fewer
      have := accounted.due id s due status
      omega
  · have := h.1 id
    rw [List.count_append] at this
    omega

theorem Held.mark {batch rest : List String} (h : Held serde (batch ++ rest) w)
    (now : PrimitiveDateTime) :
    Marked serde batch rest
      (w.update p batch (ProcessTrackerUpdate.toInternal now (.statusUpdate .processing none))) := by
  refine ⟨h.quietly (.update ..), fun id mem s due status => ?_⟩
  rw [World.update, Table.status_updateByIds] at status
  obtain ⟨before, _, status⟩ := Option.map_eq_some_iff.mp status
  rw [if_pos mem] at status
  cases status
  cases due

def HasFetched (p : Nat) (w : World) : Prop := ∃ ids, .fetched p ids ∈ w.log

structure Since (serde : Serde) (p : Nat) (w w' : World) : Prop where
  log : w.log <+: w'.log
  quiet : HasFetched p w → Quietly serde w w'

theorem HasFetched.mono (h : HasFetched p w) (log : w.log <+: w'.log) : HasFetched p w' := by
  obtain ⟨ids, mem⟩ := h
  exact ⟨ids, log.subset mem⟩

def producing (serde : Serde) (p : Nat) (a : Call) : Setting Command Reply World Choice where
  exec := exec p
  inv := Accounted serde
  rely := Since serde p
  guar := fun _ w w' => w.log <+: w'.log ∧ (a ≠ .producerFlow → Quietly serde w w')
  allow := fun _ _ _ => True

theorem Effect.log_prefix {cmd : Command} (h : Effect p cmd w w') : w.log <+: w'.log := by
  rcases h.log with same | ⟨ev, log, _⟩
  · exact same ▸ List.prefix_rfl
  · exact log ▸ List.prefix_append ..

variable {a : Call} {I : World → Prop}

def Lasting (serde : Serde) (I : World → Prop) : Prop := ∀ w w', Quietly serde w w' → I w → I w'

theorem fetched_stable (lasting : Lasting serde I) :
    (producing serde p a).Stable fun w => HasFetched p w ∧ I w :=
  fun w w' moved _ holds => ⟨holds.1.mono moved.log, lasting w w' (moved.quiet holds.1) holds.2⟩

theorem quiet_call (cmd : Command) (other : ∀ fields, cmd ≠ .xadd fields)
    (lasting : Lasting serde I) {Q : Reply cmd → World → Prop}
    (answers : ∀ o w, Accounted serde w → I w → Q (exec p cmd o w).1 (exec p cmd o w).2)
    (holds : HasFetched p w ∧ I w) :
    (producing serde p a).Holds (fun r w => (HasFetched p w ∧ I w) ∧ Q r w) (call cmd) w := by
  refine .call (fetched_stable lasting) ?_ holds
  intro w o accounted _ holds
  have effect := exec_effect p cmd o w
  have quiet : Quietly serde w (exec p cmd o w).2 := effect.quietly other
  exact ⟨⟨effect.log_prefix, fun _ => quiet⟩, accounted.quietly quiet,
    ⟨holds.1.mono effect.log_prefix, lasting w _ quiet holds.2⟩, answers o w accounted holds.2⟩

theorem quiet_keeps (cmd : Command) (other : ∀ fields, cmd ≠ .xadd fields)
    (lasting : Lasting serde I) (holds : HasFetched p w ∧ I w) :
    (producing serde p a).Holds (fun _ w => HasFetched p w ∧ I w) (call cmd) w :=
  (quiet_call cmd other lasting (Q := fun _ _ => True) (fun _ _ _ _ => trivial) holds).mono
    fun _ _ h => h.1

theorem held_lasting (ids : List String) : Lasting serde (Held serde ids) :=
  fun _ _ quiet held => held.quietly quiet

theorem marked_lasting (batch rest : List String) : Lasting serde (Marked serde batch rest) :=
  fun _ _ quiet marked => marked.quietly quiet

/- One batch. -/

theorem updateStatus_marks {batch rest : List String}
    (holds : HasFetched p w ∧ Held serde (batch ++ rest) w) :
    (producing serde p a).Holds
      (fun r w => (HasFetched p w ∧ Held serde (batch ++ rest) w) ∧
        (r = .ok () → Marked serde batch rest w))
      (updateStatus .producer batch).run w := by
  refine .bindExcept (.changeContext (.bind ((quiet_keeps .now nofun (held_lasting _)
    holds).mono ?_)))
  intro now w holds
  refine (quiet_call (.updateProcessStatusByIds batch
    (ProcessTrackerUpdate.toInternal now (.statusUpdate .processing none))) nofun (held_lasting _)
    (Q := fun r w => ∀ n, r = .ok n → Marked serde batch rest w) ?_ holds).mono ?_
  · intro o w _ held n ok
    have set : (ProcessTrackerUpdate.toInternal now
        (.statusUpdate .processing none)).isEmpty = false := by
      simp [ProcessTrackerUpdateInternal.isEmpty, ProcessTrackerUpdate.toInternal]
    simp only [exec, set, Bool.false_eq_true, if_false] at ok ⊢
    rw [(Delivery.through_ok ok).2]
    exact held.mark now
  · rintro r w ⟨holds, marked⟩
    cases r with
    | error e =>
      refine ⟨holds, fun ok => ?_⟩
      cases ok
    | ok n => exact ⟨holds, fun _ => marked n rfl⟩

theorem xadd_held {batch rest : List String} {fields : FieldValuePairs}
    (trackers : ∀ id, (trackerIds serde fields).count id ≤ batch.count id)
    (holds : HasFetched p w ∧ Marked serde batch rest w) :
    (producing serde p .producerFlow).Holds (fun _ w => HasFetched p w ∧ Held serde rest w)
      (call (.xadd fields)) w := by
  refine .call (fetched_stable (marked_lasting batch rest)) ?_ holds
  intro w o accounted _ ⟨fetched, marked⟩
  have effect := exec_effect p (.xadd fields) o w
  obtain ⟨after, held⟩ : Accounted serde (w.append p o.gap fields) ∧
      Held serde rest (w.append p o.gap fields) := marked.append accounted trackers
  have both : Accounted serde (exec p (.xadd fields) o w).2 ∧
      Held serde rest (exec p (.xadd fields) o w).2 := by
    simp only [exec]
    cases o.redis with
    | answered | unanswered => exact ⟨after, held⟩
    | lost => exact ⟨accounted, marked.1.drop⟩
  exact ⟨⟨effect.log_prefix, fun other => absurd rfl other⟩, both.1,
    fetched.mono effect.log_prefix, both.2⟩

theorem streamAppendEntry_held {batch rest : List String} {fields : FieldValuePairs}
    (trackers : ∀ id, (trackerIds serde fields).count id ≤ batch.count id)
    (holds : HasFetched p w ∧ Marked serde batch rest w) :
    (producing serde p .producerFlow).Holds (fun _ w => HasFetched p w ∧ Held serde rest w)
      (streamAppendEntry fields).run w := by
  have connected : (producing serde p .producerFlow).Holds
      (fun _ w => HasFetched p w ∧ Marked serde batch rest w) getRedisConn.run w := by
    refine .bindExcept (.lift ((quiet_keeps .isRedisAvailable nofun (marked_lasting _ _)
      holds).mono ?_))
    intro available w holds
    cases available <;> exact holds
  refine .bindExcept (connected.mono ?_)
  intro r w holds
  cases r with
  | error e => exact ⟨holds.1, holds.2.1.drop⟩
  | ok => exact .changeContext ((xadd_held trackers holds).mono fun _ _ h => h)

theorem updateStatusAndAppend_held (faithful : serde.Faithful) {batch : ProcessTrackerBatch}
    {rest : List String}
    (holds : HasFetched p w ∧ Held serde (batch.trackers.map ProcessTracker.id ++ rest) w) :
    (producing serde p .producerFlow).Holds (fun _ w => HasFetched p w ∧ Held serde rest w)
      (updateStatusAndAppend serde .producer batch).run w := by
  refine .bindExcept ((updateStatus_marks holds).mono ?_)
  rintro r w ⟨holds, marked⟩
  cases r with
  | error e => exact ⟨holds.1, holds.2.drop⟩
  | ok =>
    refine .bindExcept ?_
    cases written : batch.toRedisFieldValuePairs serde with
    | error e => exact ⟨holds.1, holds.2.drop⟩
    | ok fields =>
      refine .bindExcept (.lift ((streamAppendEntry_held (trackerIds_batch faithful written)
        ⟨holds.1, marked rfl⟩).mono ?_))
      intro r w holds
      cases r with
      | ok => exact holds
      | error e =>
        refine .bindExcept (.lift (.bind ((quiet_keeps .now nofun (held_lasting _)
          holds).mono ?_)))
        intro now w holds
        exact (quiet_keeps (.updateProcessStatusByIds _ _) nofun (held_lasting _) holds).mono
          fun _ _ h => h

theorem appendBatches_held (faithful : serde.Faithful) (batches : List ProcessTrackerBatch)
    (holds : HasFetched p w ∧
      Held serde (batches.flatMap fun b => b.trackers.map ProcessTracker.id) w) :
    (producing serde p .producerFlow).Holds (fun _ _ => True)
      (appendBatches serde .producer batches).run w := by
  induction batches generalizing w with
  | nil => trivial
  | cons batch batches ih =>
    rw [List.flatMap_cons] at holds
    exact .bindExcept (.lift ((updateStatusAndAppend_held faithful holds).mono fun _ _ => ih))

theorem divideIntoBatches_ids {size : Nat} {tasks : List ProcessTracker} {now : PrimitiveDateTime}
    {batchId : String} {conf : SchedulerSettings} {batches : List ProcessTrackerBatch}
    (divided : divideIntoBatches size tasks now batchId conf = some batches) :
    (batches.flatMap fun b => b.trackers.map ProcessTracker.id) = tasks.map ProcessTracker.id := by
  rw [divideIntoBatches] at divided
  split at divided
  · cases divided
  · rename_i positive
    cases divided
    rw [List.flatMap_map, List.flatMap_def]
    change ((chunks size tasks).map (List.map ProcessTracker.id)).flatten = _
    rw [← List.map_flatten, chunks_flatten (Nat.pos_of_ne_zero positive)]

theorem divideAndAppendTasks_held (faithful : serde.Faithful) (conf : SchedulerSettings)
    {tasks : List ProcessTracker}
    (holds : HasFetched p w ∧ Held serde (tasks.map ProcessTracker.id) w) :
    (producing serde p .producerFlow).Holds (fun _ _ => True)
      (divideAndAppendTasks serde conf .producer tasks).run w := by
  refine .bindExcept (.lift ((quiet_keeps .now nofun (held_lasting _) holds).mono ?_))
  intro now w holds
  refine .bindExcept (.lift ((quiet_keeps .newUuid nofun (held_lasting _) holds).mono ?_))
  intro batchId w holds
  cases divided : divideIntoBatches conf.producer.batchSize tasks now batchId conf with
  | none =>
    simp only [divided]
    trivial
  | some batches =>
    simp only [divided]
    exact appendBatches_held faithful batches (divideIntoBatches_ids divided ▸ holds)

/- The two selects. -/

theorem distinct_found (t : Table) (lower upper : PrimitiveDateTime)
    (status : ProcessTrackerStatus) (limit : Option Nat) :
    ((t.findByTimeStatus lower upper status limit).map ProcessTracker.id).Nodup := by
  have all : ∀ l : List ProcessTracker, l.Sublist t.rows → (l.map ProcessTracker.id).Nodup :=
    fun l sub => t.distinct.sublist (sub.map _)
  cases limit with
  | none => exact all _ List.filter_sublist
  | some n => exact all _ ((List.take_sublist ..).trans List.filter_sublist)

theorem find_new {lower upper : PrimitiveDateTime} :
    (producing serde p a).Holds
      (fun r w => ∀ found, r = .ok found →
        HasFetched p w ∧ FetchedNew serde (found.map ProcessTracker.id) w)
      (call (.findProcessesByTimeStatus lower upper .new none)) w := by
  refine .call (I := fun _ => True) (fun _ _ _ _ _ => trivial) ?_ trivial
  intro w o accounted _ _
  have effect := exec_effect p (.findProcessesByTimeStatus lower upper .new none) o w
  have quiet : Quietly serde w (exec p (.findProcessesByTimeStatus lower upper .new none) o w).2 :=
    effect.quietly nofun
  refine ⟨⟨effect.log_prefix, fun _ => quiet⟩, accounted.quietly quiet, fun found ok => ?_⟩
  obtain ⟨rfl, after⟩ := Delivery.through_ok ok
  have isNew : FetchedNew serde
      ((w.table.findByTimeStatus lower upper .new none).map ProcessTracker.id) w := by
    refine ⟨distinct_found w.table lower upper .new none, fun id mem => ?_⟩
    have status := w.table.status_of_found mem
    refine ⟨accounted.due id .new rfl status, fun pending => ?_⟩
    cases status.symm.trans pending
  have logged : HasFetched p (exec p (.findProcessesByTimeStatus lower upper .new none) o w).2 := by
    refine ⟨(w.table.findByTimeStatus lower upper .new none).map ProcessTracker.id, ?_⟩
    simp only [exec, after]
    exact List.mem_append_right _ (List.mem_singleton_self _)
  exact ⟨logged, isNew.quietly quiet⟩

theorem find_pending {lower upper : PrimitiveDateTime} {new : List String}
    (holds : HasFetched p w ∧ FetchedNew serde new w) :
    (producing serde p a).Holds
      (fun r w => ∀ found, r = .ok found →
        HasFetched p w ∧ Held serde (new ++ found.map ProcessTracker.id) w)
      (call (.findProcessesByTimeStatus lower upper .pending none)) w := by
  refine (quiet_call (.findProcessesByTimeStatus lower upper .pending none) nofun
    (fun _ _ quiet fetched => fetched.quietly quiet) (Q := fun r w => ∀ found, r = .ok found →
      Held serde (new ++ found.map ProcessTracker.id) w) ?_ holds).mono ?_
  · intro o w accounted fetchedNew found ok
    have quiet : Quietly serde w (exec p (.findProcessesByTimeStatus lower upper .pending none) o w).2 :=
      (exec_effect p (.findProcessesByTimeStatus lower upper .pending none) o w).quietly nofun
    obtain ⟨rfl, -⟩ := Delivery.through_ok ok
    exact (fetchedNew.held accounted (distinct_found w.table lower upper .pending none)
      fun id mem => w.table.status_of_found mem).quietly quiet
  · exact fun r w h found ok => ⟨h.1.1, h.2 found ok⟩

theorem fetchProducerTasks_held (conf : SchedulerSettings) :
    (producing serde p a).Holds
      (fun r w => ∀ tasks, r = .ok tasks →
        HasFetched p w ∧ Held serde (tasks.map ProcessTracker.id) w)
      (fetchProducerTasks conf).run w := by
  have clock : (producing serde p a).Holds (fun _ _ => True) (call .now) w := by
    refine .call (I := fun _ => True) (fun _ _ _ _ _ => trivial) ?_ trivial
    exact fun w o accounted _ _ => ⟨⟨List.prefix_rfl, fun _ => .refl⟩, accounted, trivial⟩
  refine .bindExcept (.lift (clock.mono ?_))
  intro now w _
  simp only
  split
  · split
    · refine .bindExcept (.changeContext (find_new.mono ?_))
      intro r w new
      cases r with
      | error e => nofun
      | ok newTasks =>
        refine .bindExcept (.changeContext ((find_pending (new newTasks rfl)).mono ?_))
        intro r w held
        cases r with
        | error e => nofun
        | ok pendingTasks =>
          rintro tasks ⟨⟩
          rw [List.map_append]
          exact held pendingTasks rfl
    · nofun
  · nofun

theorem producerFlow_held (faithful : serde.Faithful) (conf : SchedulerSettings) :
    (producing serde p .producerFlow).Holds (fun _ _ => True) (producerFlow serde conf).run w := by
  refine .bindExcept ((fetchProducerTasks_held conf).mono ?_)
  intro r w held
  cases r with
  | error e => trivial
  | ok tasks => exact divideAndAppendTasks_held faithful conf (held tasks rfl)

theorem others_quiet {t : SchedulerTask Result} (h : t.every fun cmd => ∀ fields, cmd ≠ .xadd fields) :
    (producing serde p a).Holds (fun _ _ => True) t w := by
  refine .every (I := fun _ => True) (fun _ _ _ _ _ => trivial) ?_ h trivial
  intro cmd other w o accounted _ _
  have effect := exec_effect p cmd o w
  exact ⟨⟨effect.log_prefix, fun _ => effect.quietly other⟩,
    accounted.quietly (effect.quietly other), trivial⟩

end Producer

section Runs

variable {serde : Serde} {conf : SchedulerSettings} {table : Table}

abbrev SchedulerConfig := Config Command Reply World Call Result

/-- Producer runs one after the other, as the lock makes them, and no append but theirs. -/
def producersApart (c : SchedulerConfig) (act : Action Choice Empty Call) : Prop :=
  Machine.apart (· = .producerFlow) c act ∧
    ∀ p way tasks, act ≠ .spawn p (.divideAndAppendTasks way tasks)

def producerOnly (a : Call) (cmd : Command) : Prop :=
  a = .producerFlow ∨ (∀ fields, cmd ≠ .xadd fields) ∧
    ∀ lower upper status limit, cmd ≠ .findProcessesByTimeStatus lower upper status limit

theorem consumer_producerOnly {cmd : Command} (h : consumerCommand cmd) :
    producerOnly .consumerOperations cmd := by
  refine .inr ⟨?_, ?_⟩ <;> rintro _ <;> try rintro _ _ _
  all_goals rintro rfl; exact h

theorem program_producerOnly (a : Call) (other : ∀ way tasks, a ≠ .divideAndAppendTasks way tasks) :
    (a.program serde conf).every (producerOnly a) := by
  have quiet {cmd : Command} (h : (∀ fields, cmd ≠ .xadd fields) ∧
      ∀ lower upper status limit, cmd ≠ .findProcessesByTimeStatus lower upper status limit) :
      producerOnly a cmd := .inr h
  cases a with
  | producerFlow => exact Task.every_of_all fun _ => .inl rfl
  | divideAndAppendTasks way tasks => exact absurd rfl (other way tasks)
  | consumerOperations =>
    exact Task.every_bind (consumerOperations_every.mono fun _ => consumer_producerOnly)
      fun _ => trivial
  | retryProcess this time | resetProcess this time
  | finishProcessWithBusinessStatus this status =>
    refine Task.every_bind (Task.every_tryBind (updateProcess_every (quiet ⟨nofun, nofun⟩)
      fun _ => quiet ⟨nofun, nofun⟩) fun _ => trivial) fun _ => trivial
  | updateProcess this u =>
    exact Task.every_bind (updateProcess_every (quiet ⟨nofun, nofun⟩)
      fun _ => quiet ⟨nofun, nofun⟩) fun _ => trivial
  | consumerErrorHandler process =>
    refine Task.every_bind (Task.every_tryBind (Task.every_changeContext
      (updateStatusByIds_every (quiet ⟨nofun, nofun⟩) fun _ => quiet ⟨nofun, nofun⟩))
      fun _ => trivial) fun _ => trivial
  | createTask entry =>
    exact Task.every_bind (Task.every_tryBind ⟨quiet ⟨nofun, nofun⟩, fun _ => trivial⟩
      fun _ => trivial) fun _ => trivial

theorem program_fetches (a : Call) : (a.program serde conf).every fun cmd =>
    ∀ lower upper status limit, cmd = .findProcessesByTimeStatus lower upper status limit →
      a = .producerFlow := by
  by_cases appends : ∃ way tasks, a = .divideAndAppendTasks way tasks
  · obtain ⟨way, tasks, rfl⟩ := appends
    refine Task.every_bind ((divideAndAppendTasks_every way).mono ?_) fun _ => trivial
    rintro _ allowed lower upper status limit rfl
    exact False.elim allowed
  · refine (program_producerOnly a fun way tasks same => appends ⟨way, tasks, same⟩).mono ?_
    rintro cmd (producer | ⟨_, other⟩) lower upper status limit same
    · exact producer
    · exact absurd same (other lower upper status limit)

variable {c : SchedulerConfig} {ok : SchedulerConfig → Action Choice Empty Call → Prop}

theorem Effect.fetched_cases {p q : Nat} {cmd : Command} {w w' : World} {ids : List String}
    (h : Effect p cmd w w') (mem : .fetched q ids ∈ w'.log) : .fetched q ids ∈ w.log ∨
      q = p ∧ ∃ lower upper status limit,
        cmd = .findProcessesByTimeStatus lower upper status limit := by
  cases h with
  | nothing | reinitialized | inserted | deleted => exact .inl mem
  | fetched =>
    rcases List.mem_append.mp mem with old | new
    · exact .inl old
    · cases List.mem_singleton.mp new
      exact .inr ⟨rfl, _, _, _, _, rfl⟩
  | updated | updatedOne | appended | groupCreated | delivered | acknowledged | started =>
    rcases List.mem_append.mp mem with old | new
    · exact .inl old
    · cases List.mem_singleton.mp new

theorem reach_fetched
    (reached : Machine.Reach (machine serde conf) ok (.initial (.start table)) c) {q : Nat}
    (fetched : HasFetched q c.world) : (c.procs q).call = some .producerFlow := by
  refine reached.invariant (I := fun c => HasFetched q c.world →
    (c.procs q).call = some .producerFlow) (by rintro ⟨_, ⟨⟩⟩) ?_ fetched
  intro c act d before producer _ hs fetched
  refine Machine.step_call hs ?_
  rcases step_effect hs with same | ⟨p, o, a, cmd, k, _, live, effect⟩
  · exact producer (same ▸ fetched)
  · obtain ⟨ids, mem⟩ := fetched
    rcases effect.fetched_cases mem with old | ⟨rfl, lower, upper, status, limit, find⟩
    · exact producer ⟨ids, old⟩
    · cases (before.every (fun _ => rfl) program_fetches live).1 lower upper status limit find
      exact congrArg Proc.call live

theorem accounted_start (table : Table) : Accounted serde (.start table) := by
  refine ⟨fun id => Nat.zero_le _, fun id s _ status => ?_⟩
  obtain ⟨row, found, _⟩ := Option.map_eq_some_iff.mp status
  have there : (table.find id).isSome := by rw [show table.find id = some row from found]; rfl
  simp [World.start, appends, scheduled, reschedules, there]

def scheduling (faithful : serde.Faithful) (conf : SchedulerSettings) (table : Table) :
    Discipline (machine serde conf) producersApart (.initial (.start table)) where
  inv := Accounted serde
  rely := Since serde
  guar := fun _ a _ w w' => w.log <+: w'.log ∧ (a ≠ .producerFlow → Quietly serde w w')
  allow := fun _ _ _ _ => True
  post := fun _ _ _ _ => True
  rely_refl := fun _ _ => ⟨List.prefix_rfl, fun _ => .refl⟩
  rely_trans := fun _ _ _ _ first next => ⟨first.log.trans next.log, fun fetched =>
    (first.quiet fetched).trans (next.quiet (fetched.mono first.log))⟩
  starts := ⟨accounted_start table, fun _ => rfl⟩
  allowed := fun _ _ => trivial
  spawned := by
    intro c p a _ _ _ met
    by_cases producer : a = .producerFlow
    · subst producer
      exact .bind ((producerFlow_held faithful conf).mono fun _ _ _ => trivial)
    · refine others_quiet ((program_producerOnly a fun way tasks same => ?_).mono ?_)
      · exact met.2 p way tasks (congrArg _ same)
      · rintro cmd (same | ⟨other, _⟩)
        · exact absurd same producer
        · exact other
  others := by
    intro c p q a b cmd k cmd' k' o reached liveP liveQ differ _ kept
    refine ⟨kept.1, fun fetched => kept.2 fun producer => differ ?_⟩
    have called := reach_fetched reached fetched
    rw [liveQ] at called
    exact reached.apart (fun _ => rfl) (fun _ _ (met : producersApart _ _) => met.1) liveP liveQ
      producer (Option.some.inj (called : some b = some .producerFlow))
  env := fun {_ e _} _ _ _ _ => nomatch e
  kept := fun _ _ _ _ _ _ _ => trivial

end Runs

end Mercado.Scheduler
