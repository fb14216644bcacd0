import Mathlib.Algebra.BigOperators.Group.Finset.Piecewise
import Mathlib.Algebra.Order.BigOperators.Group.Finset
import Mathlib.Algebra.Order.BigOperators.Group.List
import Mathlib.Algebra.Order.Group.Nat
import Mathlib.Data.List.Perm.Subperm
import Mercado.Scheduler.Delivery
import Mercado.Scheduler.Scheduling

/-! How often the workflow of a task is started: at most as often as the task was scheduled.
A consumer run starts what it has read, and no entry is read twice. -/
namespace Mercado.Scheduler
open Async Redis Results

section Counts

variable (serde : Serde) (id : String)

def startWeight : Event → Nat
  | .started _ process => if process.id = id then 1 else 0
  | _ => 0

def readWeight : Event → Nat
  | .delivered _ e => (trackerIds serde e.fields).count id
  | _ => 0

def starts (log : List Event) : Nat := (log.map (startWeight id)).sum

def reads (log : List Event) : Nat := (log.map (readWeight serde id)).sum

@[simp] theorem starts_append (log more : List Event) :
    starts id (log ++ more) = starts id log + starts id more := by
  simp [starts]

@[simp] theorem reads_append (log more : List Event) :
    reads serde id (log ++ more) = reads serde id log + reads serde id more := by
  simp [reads]

end Counts

/- What was read was appended, and no entry was read twice. -/

def appendedIn (log : List Event) : List (Entry FieldValuePairs) :=
  log.filterMap fun
    | .appended _ e => some e
    | _ => none

def deliveredIn (log : List Event) : List (Entry FieldValuePairs) :=
  log.filterMap fun
    | .delivered _ e => some e
    | _ => none

@[simp] theorem appendedIn_append (log more : List Event) :
    appendedIn (log ++ more) = appendedIn log ++ appendedIn more := List.filterMap_append

@[simp] theorem deliveredIn_append (log more : List Event) :
    deliveredIn (log ++ more) = deliveredIn log ++ deliveredIn more := List.filterMap_append

theorem appends_eq (serde : Serde) (id : String) (log : List Event) :
    appends serde id log =
      ((appendedIn log).map fun e => (trackerIds serde e.fields).count id).sum := by
  induction log with
  | nil => rfl
  | cons ev log ih =>
    have split : ev :: log = [ev] ++ log := rfl
    rw [split, appends_append, appendedIn_append, List.map_append, List.sum_append, ih]
    cases ev <;> simp [appends, appendedIn]

theorem reads_eq (serde : Serde) (id : String) (log : List Event) :
    reads serde id log =
      ((deliveredIn log).map fun e => (trackerIds serde e.fields).count id).sum := by
  induction log with
  | nil => rfl
  | cons ev log ih =>
    have split : ev :: log = [ev] ++ log := rfl
    rw [split, reads_append, deliveredIn_append, List.map_append, List.sum_append, ih]
    cases ev <;> simp [reads, readWeight, deliveredIn]

structure ReadOnce (w : World) : Prop where
  streamed : ∀ e ∈ w.stream.entries, e ∈ appendedIn w.log
  appended : ∀ e ∈ deliveredIn w.log, e ∈ appendedIn w.log
  ordered : (deliveredIn w.log).Pairwise fun a b => a.id < b.id
  below : ∀ e ∈ deliveredIn w.log, ∃ g, w.group = some g ∧ e.id ≤ g.lastDelivered

section Reads

variable {p : Nat} {w w' : World}

theorem ReadOnce.silent (h : ReadOnce w) (stream : w'.stream.entries ⊆ w.stream.entries)
    (group : ∀ g, w.group = some g → ∃ g', w'.group = some g' ∧ g.lastDelivered ≤ g'.lastDelivered)
    (log : w'.log = w.log ∨ ∃ ev, w'.log = w.log ++ [ev] ∧ appendedIn [ev] = [] ∧
      deliveredIn [ev] = []) : ReadOnce w' := by
  have same : appendedIn w'.log = appendedIn w.log ∧ deliveredIn w'.log = deliveredIn w.log := by
    rcases log with log | ⟨ev, log, noAppend, noRead⟩
    · rw [log]
      exact ⟨rfl, rfl⟩
    · rw [log, appendedIn_append, deliveredIn_append, noAppend, noRead, List.append_nil,
        List.append_nil]
      exact ⟨rfl, rfl⟩
  refine ⟨?_, ?_, ?_, ?_⟩
  · rw [same.1]
    exact fun e mem => h.streamed e (stream mem)
  · rw [same.1, same.2]
    exact h.appended
  · rw [same.2]
    exact h.ordered
  · rw [same.2]
    intro e mem
    obtain ⟨g, was, le⟩ := h.below e mem
    obtain ⟨g', now, grown⟩ := group g was
    exact ⟨g', now, Nat.le_trans le grown⟩

theorem ReadOnce.append (h : ReadOnce w) (gap : Nat) (fields : FieldValuePairs) :
    ReadOnce (w.append p gap fields) := by
  have all : appendedIn (w.append p gap fields).log =
      appendedIn w.log ++ [w.stream.added gap fields] := appendedIn_append ..
  have same : deliveredIn (w.append p gap fields).log = deliveredIn w.log :=
    (deliveredIn_append ..).trans (List.append_nil _)
  refine ⟨?_, ?_, ?_, ?_⟩
  · rw [all]
    intro e mem
    rcases List.mem_append.mp mem with old | new
    · exact List.mem_append_left _ (h.streamed e old)
    · exact List.mem_append_right _ new
  · rw [all, same]
    exact fun e mem => List.mem_append_left _ (h.appended e mem)
  · rw [same]
    exact h.ordered
  · rw [same]
    exact h.below

theorem ReadOnce.deliver (h : ReadOnce w) {g : Group} {consumer : String}
    {entry : Entry FieldValuePairs} (group : w.group = some g)
    (next : (w.stream.xread g.lastDelivered 1).head? = some entry) :
    ReadOnce (w.deliver p consumer g entry) := by
  obtain ⟨mem, above, _⟩ := Stream.xread_head next
  have same : appendedIn (w.deliver p consumer g entry).log = appendedIn w.log :=
    (appendedIn_append ..).trans (List.append_nil _)
  have all : deliveredIn (w.deliver p consumer g entry).log = deliveredIn w.log ++ [entry] :=
    deliveredIn_append ..
  have early : ∀ e ∈ deliveredIn w.log, e.id ≤ g.lastDelivered := by
    intro e read
    obtain ⟨g', group', le⟩ := h.below e read
    cases group.symm.trans group'
    exact le
  refine ⟨?_, ?_, ?_, ?_⟩
  · rw [same]
    exact h.streamed
  · rw [same, all]
    intro e read
    rcases List.mem_append.mp read with old | new
    · exact h.appended e old
    · exact List.mem_singleton.mp new ▸ h.streamed entry mem
  · rw [all]
    refine List.pairwise_append.mpr ⟨h.ordered, List.pairwise_singleton _ _, ?_⟩
    intro e read last isLast
    rw [List.mem_singleton.mp isLast]
    exact Nat.lt_of_le_of_lt (early e read) above
  · rw [all]
    intro e read
    refine ⟨_, rfl, ?_⟩
    rcases List.mem_append.mp read with old | new
    · exact Nat.le_of_lt (Nat.lt_of_le_of_lt (early e old) above)
    · exact Nat.le_of_eq (congrArg Entry.id (List.mem_singleton.mp new))

theorem Effect.readOnce {cmd : Command} (h : Effect p cmd w w') (before : ReadOnce w) :
    ReadOnce w' := by
  have keeps : ∀ g, w.group = some g →
      ∃ g', w.group = some g' ∧ g.lastDelivered ≤ g'.lastDelivered :=
    fun g group => ⟨g, group, Nat.le_refl _⟩
  cases h with
  | nothing => exact before
  | reinitialized | inserted => exact before.silent (List.Subset.refl _) keeps (.inl rfl)
  | fetched | updated | updatedOne | started =>
    exact before.silent (List.Subset.refl _) keeps (.inr ⟨_, rfl, rfl, rfl⟩)
  | appended => exact before.append _ _
  | groupCreated absent =>
    refine before.silent (List.Subset.refl _) (fun g group => ?_) (.inr ⟨_, rfl, rfl, rfl⟩)
    exact nomatch absent.symm.trans group
  | delivered group next => exact before.deliver group next
  | acknowledged =>
    refine before.silent (List.Subset.refl _) (fun g group => ?_) (.inr ⟨_, rfl, rfl, rfl⟩)
    exact ⟨_, Option.map_eq_some_iff.mpr ⟨g, group, rfl⟩, Nat.le_refl _⟩
  | deleted => exact before.silent (List.filter_subset_self _) keeps (.inl rfl)

theorem ReadOnce.reads_le (h : ReadOnce w) (serde : Serde) (id : String) :
    reads serde id w.log ≤ appends serde id w.log := by
  rw [reads_eq, appends_eq]
  have distinct : (deliveredIn w.log).Nodup := nodup_of_sorted h.ordered
  obtain ⟨l, perm, sub⟩ := List.subperm_of_subset distinct h.appended
  rw [← (perm.map _).sum_eq]
  exact (sub.map _).sum_le_sum fun _ _ => Nat.zero_le _

end Reads

/- A consumer run on its own. -/

section Consumer

variable {serde : Serde} {p : Nat} {w w' : World} {ids : List String}

abbrev ownLog (p : Nat) (w : World) : List Event := ownEvents (fun ev => some ev.client) p w.log

def Owes (serde : Serde) (p : Nat) (ids : List String) (w : World) : Prop :=
  ∀ id, starts id (ownLog p w) + ids.count id ≤ reads serde id (ownLog p w)

def Command.starts : Command → Bool
  | .startWorkflow _ => true
  | _ => false

def starting (serde : Serde) (p : Nat) : Setting Command Reply World Choice where
  exec := exec p
  inv := fun _ => True
  rely := fun w w' => ownLog p w' = ownLog p w
  guar := fun _ _ w' => Owes serde p [] w'
  allow := fun _ _ _ => True

theorem Owes.subset {ids' : List String} (h : Owes serde p ids w) (fewer : ids'.Sublist ids) :
    Owes serde p ids' w := by
  intro id
  have := h id
  have := fewer.count_le id
  omega

theorem owes_stable : (starting serde p).Stable (Owes serde p ids) := by
  intro w w' moved _ owes id
  rw [moved]
  exact owes id

theorem own_snoc {ev : Event} (log : w'.log = w.log ++ [ev]) (own : ev.client = p) :
    ownLog p w' = ownLog p w ++ [ev] := by
  rw [ownLog, log, ownEvents_append]
  exact congrArg _ (ownEvents_own (congrArg some own))

theorem Effect.startless {cmd : Command} (h : Effect p cmd w w')
    (other : cmd.starts = false) (id : String) : w'.log = w.log ∨
      ∃ ev : Event, w'.log = w.log ++ [ev] ∧ ev.client = p ∧ startWeight id ev = 0 := by
  cases h with
  | nothing | reinitialized | inserted | deleted => exact .inl rfl
  | fetched | updated | updatedOne | appended | groupCreated | delivered | acknowledged =>
    exact .inr ⟨_, rfl, rfl, rfl⟩
  | started => cases other

theorem Effect.own_starts {cmd : Command} (h : Effect p cmd w w')
    (other : cmd.starts = false) (id : String) :
    starts id (ownLog p w') = starts id (ownLog p w) := by
  rcases h.startless other id with same | ⟨ev, log, own, none⟩
  · rw [ownLog, ownLog, same]
  · rw [own_snoc log own, starts_append]
    simp [starts, none]

theorem Effect.own_reads {cmd : Command} (h : Effect p cmd w w') (id : String) :
    reads serde id (ownLog p w) ≤ reads serde id (ownLog p w') := by
  rcases h.log with same | ⟨ev, log, own, _⟩
  · rw [ownLog, ownLog, same]
  · rw [own_snoc log own, reads_append]
    exact Nat.le_add_right ..

theorem Owes.effect {cmd : Command} (h : Owes serde p ids w) (effect : Effect p cmd w w')
    (other : cmd.starts = false) : Owes serde p ids w' := by
  intro id
  rw [effect.own_starts other]
  exact Nat.le_trans (h id) (effect.own_reads id)

theorem owes_call (cmd : Command) (other : cmd.starts = false)
    (owes : Owes serde p ids w) :
    (starting serde p).Holds (fun _ => Owes serde p ids) (call cmd) w := by
  refine .call owes_stable ?_ owes
  intro w o _ _ owes
  have after := owes.effect (exec_effect p cmd o w) other
  exact ⟨after.subset (List.nil_sublist _), trivial, after⟩

theorem owes_every {α : Type} {t : SchedulerTask α}
    (h : t.every fun cmd => cmd.starts = false) (owes : Owes serde p ids w) :
    (starting serde p).Holds (fun _ => Owes serde p ids) t w := by
  refine .every owes_stable ?_ h owes
  intro cmd other w o _ _ owes
  have after := owes.effect (exec_effect p cmd o w) other
  exact ⟨after.subset (List.nil_sublist _), trivial, after⟩

theorem xreadgroup_owes {consumer : String} (owes : Owes serde p [] w) :
    (starting serde p).Holds
      (fun r w => Owes serde p [] w ∧ ∀ entries, r = .ok entries →
        Owes serde p (entries.flatMap fun e => trackerIds serde e.fields) w)
      (call (.xreadgroup consumer)) w := by
  refine .call owes_stable ?_ owes
  intro w o _ _ owes
  have after := owes.effect (exec_effect p (.xreadgroup consumer) o w) rfl
  refine ⟨after, trivial, after, ?_⟩
  simp only [starting, exec]
  split
  · intro _ failed
    cases failed
  · split
    · intro entries ok
      split at ok <;> cases ok
    · rename_i g _ _ entry _
      intro entries ok
      obtain ⟨rfl, state⟩ := Delivery.through_ok ok
      rw [state]
      intro id
      have own : ownLog p (w.deliver p consumer g entry) =
          ownLog p w ++ [.delivered p entry] := own_snoc rfl rfl
      have := owes id
      simp only [own, starts_append, reads_append]
      simp only [List.flatMap_cons, List.flatMap_nil, List.append_nil]
      simp only [starts, reads, List.map_cons, List.map_nil, List.sum_cons, List.sum_nil, startWeight,
        readWeight] at this ⊢
      omega

theorem decoded_trackerIds {fields : FieldValuePairs} {batch : ProcessTrackerBatch}
    (decoded : ProcessTrackerBatch.fromRedisStreamEntry serde (readFields fields) = .ok batch) :
    trackerIds serde fields = batch.trackers.map ProcessTracker.id := by
  obtain ⟨_, _, _, _, _, _, trackers⟩ := ProcessTrackerBatch.fromRedisStreamEntry_ok.mp decoded
  obtain ⟨text, found, parsed⟩ := bind_ok.mp trackers
  rw [trackerIds, found]
  simp only [parsed]

theorem decodedAll_trackerIds {entries : List (Entry FieldValuePairs)}
    {batches : List ProcessTrackerBatch} (decoded : (entries.mapM fun entry =>
      ProcessTrackerBatch.fromRedisStreamEntry serde (readFields entry.fields)) = .ok batches) :
    (entries.flatMap fun e => trackerIds serde e.fields) =
      batches.flatMap fun b => b.trackers.map ProcessTracker.id := by
  induction entries generalizing batches with
  | nil =>
    cases decoded
    rfl
  | cons e entries ih =>
    rw [List.mapM_cons] at decoded
    obtain ⟨batch, first, rest⟩ := bind_ok.mp decoded
    obtain ⟨others, later, same⟩ := bind_ok.mp rest
    cases same
    rw [List.flatMap_cons, List.flatMap_cons, decoded_trackerIds first, ih later]

theorem getBatches_owes {consumer : String} (owes : Owes serde p [] w) :
    (starting serde p).Holds
      (fun r w => ∀ batches, r = .ok batches →
        Owes serde p (batches.flatMap fun b => b.trackers.map ProcessTracker.id) w)
      (getBatches serde consumer).run w := by
  refine .bindExcept (.lift ((xreadgroup_owes owes).mono ?_))
  rintro r w ⟨owes, read⟩
  cases r with
  | error e =>
    cases e with
    | streamEmptyOrNotAvailable =>
      rintro batches ⟨⟩
      exact owes
    | _ => nofun
  | ok entries =>
    refine .bindExcept ?_
    cases decoded : entries.mapM fun entry =>
        ProcessTrackerBatch.fromRedisStreamEntry serde (readFields entry.fields) with
    | error e => nofun
    | ok batches =>
      have owes := read entries rfl
      rw [decodedAll_trackerIds decoded] at owes
      refine .bindExcept (.changeContext ((owes_call (.xack _) rfl owes).mono ?_))
      intro r w owes
      cases r with
      | error e => nofun
      | ok n =>
        refine .bindExcept (.changeContext ((owes_call (.xdel _) rfl owes).mono ?_))
        intro r w owes
        cases r with
        | error e => nofun
        | ok n =>
          rintro _ ⟨⟩
          exact owes

theorem validTrackers_ids (batches : List ProcessTrackerBatch) :
    ((validTrackers batches).map ProcessTracker.id).Sublist
      (batches.flatMap fun b => b.trackers.map ProcessTracker.id) := by
  induction batches with
  | nil => exact .slnil
  | cons b batches ih =>
    rw [validTrackers, List.flatMap_cons, List.map_append, List.flatMap_cons]
    exact (List.filter_sublist.map _).append ih

theorem fetchConsumerTasks_owes {consumer : String} (owes : Owes serde p [] w) :
    (starting serde p).Holds
      (fun r w => ∀ tasks, r = .ok tasks → Owes serde p (tasks.map ProcessTracker.id) w)
      (fetchConsumerTasks serde consumer).run w := by
  have connected : (starting serde p).Holds (fun _ => Owes serde p []) getRedisConn.run w :=
    owes_every (getRedisConn_every rfl) owes
  refine .bindExcept (.changeContext (connected.mono ?_))
  intro r w owes
  cases r with
  | error e => nofun
  | ok =>
    refine .bindExcept ((getBatches_owes owes).mono ?_)
    intro r w read
    cases r with
    | error e => nofun
    | ok batches =>
      have owes := (read batches rfl).subset (validTrackers_ids batches)
      simp only
      split
      · rintro tasks ⟨⟩
        exact owes.subset (List.nil_sublist _)
      · have updated : (starting serde p).Holds
            (fun _ => Owes serde p ((validTrackers batches).map ProcessTracker.id))
            (processTrackerUpdateProcessStatusByIds ((validTrackers batches).map ProcessTracker.id)
              (.statusUpdate .processStarted none)) w :=
          owes_every (updateStatusByIds_every rfl fun _ => rfl) owes
        refine .bindExcept (.changeContext (updated.mono ?_))
        intro r w owes
        cases r with
        | error e => nofun
        | ok n =>
          rintro tasks ⟨⟩
          rw [List.map_map]
          exact owes

theorem startWorkflows_owes (tasks : List ProcessTracker)
    (owes : Owes serde p (tasks.map ProcessTracker.id) w) :
    (starting serde p).Holds (fun _ _ => True) (startWorkflows tasks) w := by
  induction tasks generalizing w with
  | nil => trivial
  | cons task tasks ih =>
    refine .await owes_stable (Q := fun _ => Owes serde p (tasks.map ProcessTracker.id)) ?_
      (fun _ _ owes => ih owes) owes
    intro w o _ _ owes
    have after : Owes serde p (tasks.map ProcessTracker.id) (w.note (.started p task)) := by
      intro id
      have own : ownLog p (w.note (.started p task)) = ownLog p w ++ [.started p task] :=
        own_snoc rfl rfl
      have := owes id
      rw [List.map_cons, List.count_cons] at this
      rw [own, starts_append, reads_append]
      simp only [starts, reads, List.map_cons, List.map_nil, List.sum_cons, List.sum_nil,
        startWeight, readWeight, beq_iff_eq] at this ⊢
      omega
    exact ⟨after.subset (List.nil_sublist _), trivial, after⟩

theorem consumerOperations_owes (owes : Owes serde p [] w) :
    (starting serde p).Holds (fun _ _ => True) (consumerOperations serde).run w := by
  refine .bindExcept (.lift ((owes_call .newUuid rfl owes).mono ?_))
  intro uuid w owes
  have created : (starting serde p).Holds (fun _ => Owes serde p []) consumerGroupCreate.run w :=
    owes_every (consumerGroupCreate_every rfl rfl) owes
  refine .bindExcept (.lift (created.mono ?_))
  intro r w owes
  refine .bindExcept ((fetchConsumerTasks_owes owes).mono ?_)
  intro r w owes
  cases r with
  | error e => trivial
  | ok tasks => exact .lift ((startWorkflows_owes tasks (owes tasks rfl)).mono fun _ _ _ => trivial)

end Consumer

/- All runs together. -/

section Runs

variable {serde : Serde} {conf : SchedulerSettings} {table : Table} {c : SchedulerConfig}

theorem fetchProducerTasks_every {A : Command → Prop} (clock : A .now)
    (find : ∀ lower upper status limit, A (.findProcessesByTimeStatus lower upper status limit)) :
    (fetchProducerTasks conf).run.every A := by
  refine Task.every_tryBind (Task.every_lift (Task.every_call clock)) fun now => ?_
  split
  · split
    · refine Task.every_tryBind (Task.every_changeContext (Task.every_call (find ..))) fun new => ?_
      exact Task.every_tryBind (Task.every_changeContext (Task.every_call (find ..)))
        fun pending => trivial
    · trivial
  · trivial

theorem program_startless (a : Call) (other : a ≠ .consumerOperations) :
    (a.program serde conf).every fun cmd => cmd.starts = false := by
  have appending {tasks : List ProcessTracker} {cmd : Command} (h : appendCommand serde tasks cmd) :
      cmd.starts = false := by
    cases cmd with
    | startWorkflow => exact False.elim h
    | _ => rfl
  cases a with
  | producerFlow =>
    refine Task.every_bind (Task.every_tryBind (fetchProducerTasks_every rfl fun _ _ _ _ => rfl)
      fun tasks => ?_) fun _ => trivial
    exact (divideAndAppendTasks_every .producer).mono fun _ => appending
  | divideAndAppendTasks way tasks =>
    exact Task.every_bind ((divideAndAppendTasks_every way).mono fun _ => appending)
      fun _ => trivial
  | consumerOperations => exact absurd rfl other
  | retryProcess this time | resetProcess this time
  | finishProcessWithBusinessStatus this status =>
    exact Task.every_bind (Task.every_tryBind (updateProcess_every rfl fun _ => rfl)
      fun _ => trivial) fun _ => trivial
  | updateProcess this u =>
    exact Task.every_bind (updateProcess_every rfl fun _ => rfl) fun _ => trivial
  | consumerErrorHandler process =>
    exact Task.every_bind (Task.every_tryBind (Task.every_changeContext
      (updateStatusByIds_every rfl fun _ => rfl)) fun _ => trivial) fun _ => trivial
  | createTask entry =>
    exact Task.every_bind (Task.every_tryBind ⟨rfl, fun _ => trivial⟩ fun _ => trivial)
      fun _ => trivial

theorem starts_idle (table : Table) :
    True ∧ ∀ p, (.initial (.start table) : SchedulerConfig).procs p = .idle :=
  ⟨trivial, fun _ => rfl⟩

def startsFollowReads (serde : Serde) (conf : SchedulerSettings) (table : Table)
    (ok : SchedulerConfig → Action Choice Empty Call → Prop) :
    Discipline (machine serde conf) ok (.initial (.start table)) where
  inv := fun _ => True
  rely := fun p w w' => ownLog p w' = ownLog p w
  guar := fun p _ _ _ w' => Owes serde p [] w'
  allow := fun _ _ _ _ => True
  post := fun _ _ _ _ => True
  rely_refl := fun _ _ => rfl
  rely_trans := fun _ _ _ _ first next => next.trans first
  starts := starts_idle table
  allowed := fun _ _ => trivial
  spawned := by
    intro c p a reached _ idle _
    have silent : ownLog p c.world = [] :=
      (history serde conf).idle_silent reached (fun _ => rfl) p idle
    have owes : Owes serde p [] c.world := fun id => by rw [silent]; exact Nat.le_refl _
    by_cases consumer : a = .consumerOperations
    · subst consumer
      exact .bind ((consumerOperations_owes owes).mono fun _ _ _ => trivial)
    · exact (owes_every (program_startless a consumer) owes).mono fun _ _ _ => trivial
  others := by
    intro c p q a b cmd k cmd' k' o _ _ _ differ _ _
    exact (history serde conf).exec_other (Ne.symm differ) cmd o c.world
  env := fun {_ e _} _ _ _ _ => e.elim
  kept := fun _ _ _ _ _ _ _ => trivial

variable {ok : SchedulerConfig → Action Choice Empty Call → Prop}

theorem reach_owes (reached : Machine.Reach (machine serde conf) ok (.initial (.start table)) c)
    (p : Nat) : Owes serde p [] c.world := by
  refine reached.invariant (I := fun c => Owes serde p [] c.world) (fun _ => Nat.le_refl _) ?_
  intro c act d before owes met hs
  by_cases own : ∃ o, act = .step p o
  · obtain ⟨o, rfl⟩ := own
    obtain ⟨_, _, _, _, _, after, _⟩ :=
      ((startsFollowReads serde conf table ok).sound before).own_step met hs
    exact after
  · intro id
    have same : ownLog p d.world = ownLog p c.world := by
      rcases step_effect hs with same | ⟨q, o, a, cmd, k, rfl, live, effect⟩
      · rw [same]
      · refine (history serde conf).step_other hs ?_
        exact fun mine => own ⟨o, by rw [Option.some.inj mine]⟩
    rw [same]
    exact owes id

theorem reach_readOnce
    (reached : Machine.Reach (machine serde conf) ok (.initial (.start table)) c) :
    ReadOnce c.world := by
  refine reached.invariant (I := fun c => ReadOnce c.world) ⟨nofun, nofun, .nil, nofun⟩ ?_
  intro c act d _ before _ hs
  rcases step_effect hs with same | ⟨_, _, _, _, _, _, _, effect⟩
  · rw [same]
    exact before
  · exact effect.readOnce before

theorem sum_clients (weight : Event → Nat) (clients : Finset Nat) (log : List Event)
    (all : ∀ ev ∈ log, ev.client ∈ clients) : (log.map weight).sum =
      ∑ p ∈ clients, ((ownEvents (fun ev => some ev.client) p log).map weight).sum := by
  induction log with
  | nil => simp [ownEvents]
  | cons ev log ih =>
    have split : ∀ p, ((ownEvents (fun ev => some ev.client) p (ev :: log)).map weight).sum =
        (if ev.client = p then weight ev else 0) +
          ((ownEvents (fun ev => some ev.client) p log).map weight).sum := by
      intro p
      by_cases own : ev.client = p <;> simp [ownEvents, own]
    rw [List.map_cons, List.sum_cons, ih fun e mem => all e (List.mem_cons_of_mem _ mem)]
    simp only [split, Finset.sum_add_distrib, Finset.sum_ite_eq, all ev List.mem_cons_self, if_true]

theorem reach_starts_le_reads
    (reached : Machine.Reach (machine serde conf) ok (.initial (.start table)) c) (id : String) :
    starts id c.world.log ≤ reads serde id c.world.log := by
  have all : ∀ ev ∈ c.world.log, ev.client ∈ (c.world.log.map Event.client).toFinset :=
    fun ev mem => List.mem_toFinset.mpr (List.mem_map_of_mem mem)
  rw [starts, reads, sum_clients _ _ _ all, sum_clients _ _ _ all]
  exact Finset.sum_le_sum fun p _ => reach_owes reached p id

/-- As long as producer runs do not overlap, a task is put on the stream at most as often as it
was scheduled, and its workflow is started at most as often as it was put there, whatever fails
or crashes, however many consumers read the stream and whoever updates the table meanwhile. -/
theorem starts_le_scheduled (faithful : serde.Faithful)
    (reached : Machine.Reach (machine serde conf) producersApart (.initial (.start table)) c)
    (id : String) : starts id c.world.log ≤ appends serde id c.world.log ∧
      appends serde id c.world.log ≤ scheduled id c.world := by
  constructor
  · calc starts id c.world.log ≤ reads serde id c.world.log := reach_starts_le_reads reached id
      _ ≤ appends serde id c.world.log := (reach_readOnce reached).reads_le serde id
  · exact ((scheduling faithful conf table).sound reached).inv.bounded id

end Runs

set_option maxRecDepth 8000 in
/-- A consumer run creates the group, a producer run appends the one task that is due, and the
consumer run goes on and starts it. -/
theorem starts_le_scheduled_once : ∃ c : SchedulerConfig,
    starts "sync" c.world.log = 1 ∧ scheduled "sync" c.world = 1 ∧
    starts "sync" c.world.log ≤ appends dueTaskSerde "sync" c.world.log ∧
    appends dueTaskSerde "sync" c.world.log ≤ scheduled "sync" c.world := by
  let rest : List (Action Choice Empty Call) :=
    groupRun 1 ++ (producerRun 0).tail ++
      [.step 1 {}, .step 1 {}, .step 1 {}, .step 1 {}, .step 1 {}, .step 1 {}, .step 1 {}]
  obtain ⟨c, ran, once, counted⟩ : ∃ c, (machine dueTaskSerde sampleSettings).run
      (.initial dueWorld) (.spawn 0 .producerFlow :: rest) = some c ∧
      starts "sync" c.world.log = 1 ∧ scheduled "sync" c.world = 1 := ⟨_, rfl, rfl, rfl⟩
  have met : (machine dueTaskSerde sampleSettings).Meets producersApart (.initial dueWorld)
      (.spawn 0 .producerFlow :: rest) := by
    refine ⟨⟨fun _ _ _ _ _ live => (nomatch live), fun _ _ _ => nofun⟩, fun d _ => ?_⟩
    refine Machine.meets_each fun act mem _ => ?_
    simp only [rest, groupRun, producerRun, List.cons_append, List.nil_append, List.tail_cons,
      List.mem_cons, List.not_mem_nil, or_false] at mem
    rcases mem with rfl | mem
    · exact ⟨fun producer => (nomatch producer), fun _ _ _ => nofun⟩
    · obtain ⟨p, o, rfl⟩ : ∃ p o, act = .step p o := by
        rcases mem with rfl | rfl | rfl | rfl | rfl | rfl | rfl | rfl | rfl | rfl | rfl | rfl |
          rfl | rfl | rfl | rfl | rfl | rfl | rfl <;> exact ⟨_, _, rfl⟩
      exact ⟨trivial, fun _ _ _ => nofun⟩
  exact ⟨c, once, counted,
    starts_le_scheduled dueTaskSerde_faithful (Machine.reach_of_meets met ran) "sync"⟩

end Mercado.Scheduler
