import Mercado.Scheduler.Protocol

/-! What becomes of the batches in the scheduler stream: which of them a consumer can
still be given, and what has happened to the others. -/
namespace Mercado.Scheduler
open Async Redis

/-- A later read of the group comes to the entry. -/
def Deliverable (w : World) (e : Entry FieldValuePairs) : Prop :=
  e ∈ w.stream.entries ∧ ∃ g, w.group = some g ∧ g.lastDelivered < e.id

def Pending (w : World) (e : Entry FieldValuePairs) : Prop :=
  e ∈ w.stream.entries ∧ ∃ g consumer, w.group = some g ∧ (e.id, consumer) ∈ g.pending

def Acknowledged (w : World) (q : Nat) (e : Entry FieldValuePairs) : Prop :=
  ∃ ids, .acknowledged q ids ∈ w.log ∧ e.id ∈ ids

structure Consistent (w : World) : Prop where
  bounded : ∀ g, w.group = some g → g.lastDelivered ≤ w.stream.lastId
  grouped : ∀ q n, .groupCreated q n ∈ w.log → w.group ≠ none
  below : ∀ q e, .delivered q e ∈ w.log → ∃ g, w.group = some g ∧ e.id ≤ g.lastDelivered
  once : ∀ q q' e e', .delivered q e ∈ w.log → .delivered q' e' ∈ w.log → e.id = e'.id → q = q'
  acked : ∀ q ids, .acknowledged q ids ∈ w.log → ∀ i ∈ ids, ∃ e, .delivered q e ∈ w.log ∧ e.id = i
  kept : ∀ q e, .delivered q e ∈ w.log → Pending w e ∨ Acknowledged w q e
  due : ∀ before q e after, w.log = before ++ .appended q e :: after →
    (∃ p n, .groupCreated p n ∈ before) → Deliverable w e ∨ ∃ p, .delivered p e ∈ w.log

def Event.silent : Event → Bool
  | .fetched .. | .updated .. | .started .. => true
  | _ => false

section Steps

variable {p : Nat} {w w' : World}

theorem Consistent.start (table : Table) : Consistent (.start table) := by
  constructor <;> simp [World.start]

theorem Consistent.silent (h : Consistent w) (stream : w'.stream = w.stream)
    (group : w'.group = w.group)
    (log : w'.log = w.log ∨ ∃ ev, w'.log = w.log ++ [ev] ∧ ev.silent = true) : Consistent w' := by
  have same : ∀ ev : Event, ev.silent = false → (ev ∈ w'.log ↔ ev ∈ w.log) := by
    intro ev loud
    rcases log with log | ⟨quiet, log, silent⟩
    · rw [log]
    · have differ : ev ≠ quiet := fun same => by simp [same, silent] at loud
      simp [log, differ]
  constructor
  · rw [group, stream]
    exact h.bounded
  · intro q n mem
    rw [group]
    exact h.grouped q n ((same _ rfl).mp mem)
  · intro q e mem
    rw [group]
    exact h.below q e ((same _ rfl).mp mem)
  · exact fun q q' e e' mem mem' => h.once q q' e e' ((same _ rfl).mp mem) ((same _ rfl).mp mem')
  · intro q ids mem i hi
    obtain ⟨e, read, id⟩ := h.acked q ids ((same _ rfl).mp mem) i hi
    exact ⟨e, (same _ rfl).mpr read, id⟩
  · intro q e mem
    simp only [Pending, Acknowledged, stream, group]
    rcases h.kept q e ((same _ rfl).mp mem) with pending | ⟨ids, acked, hi⟩
    · exact .inl pending
    · exact .inr ⟨ids, (same _ rfl).mpr acked, hi⟩
  · intro before q e after split created
    have shorter : ∃ after', w.log = before ++ .appended q e :: after' := by
      rcases log with log | ⟨quiet, log, silent⟩
      · exact ⟨after, log.symm.trans split⟩
      · rcases snoc_split (log.symm.trans split) with ⟨_, rfl⟩ | earlier
        · cases silent
        · exact earlier
    obtain ⟨after', split⟩ := shorter
    simp only [Deliverable, stream, group]
    rcases h.due before q e after' split created with deliverable | ⟨p, read⟩
    · exact .inl deliverable
    · exact .inr ⟨p, (same _ rfl).mpr read⟩

theorem Consistent.append (h : Consistent w) (gap : Nat) (fields : FieldValuePairs) :
    Consistent (w.append p gap fields) := by
  have more : ∀ e ∈ w.stream.entries, e ∈ (w.append p gap fields).stream.entries :=
    fun e he => List.mem_append_left _ he
  constructor
  · intro g group
    have := h.bounded g group
    simp only [World.append, Stream.xadd_lastId]
    omega
  · intro q n mem
    exact h.grouped q n (by simpa [World.append] using mem)
  · intro q e mem
    exact h.below q e (by simpa [World.append] using mem)
  · intro q q' e e' mem mem'
    exact h.once q q' e e' (by simpa [World.append] using mem) (by simpa [World.append] using mem')
  · simpa [World.append] using h.acked
  · intro q e mem
    rcases h.kept q e (by simpa [World.append] using mem) with ⟨he, pending⟩ | ⟨ids, acked, hi⟩
    · exact .inl ⟨more e he, pending⟩
    · exact .inr ⟨ids, List.mem_append_left _ acked, hi⟩
  · intro before q e after split ⟨q', n, created⟩
    rcases snoc_split split with ⟨rfl, same⟩ | ⟨after', split⟩
    · cases same
      obtain ⟨g, group⟩ := Option.ne_none_iff_exists'.mp (h.grouped q' n created)
      have := h.bounded g group
      refine .inl ⟨List.mem_append_right _ (List.mem_singleton_self _), g, group, ?_⟩
      simp only [Stream.added]
      omega
    · rcases h.due before q e after' split ⟨q', n, created⟩ with ⟨he, later⟩ | ⟨p, read⟩
      · exact .inl ⟨more e he, later⟩
      · exact .inr ⟨p, List.mem_append_left _ read⟩

theorem Consistent.createGroup (h : Consistent w) (absent : w.group = none) :
    Consistent (w.createGroup p) := by
  have unread : ∀ q e, .delivered q e ∉ w.log := by
    intro q e mem
    obtain ⟨g, group, _⟩ := h.below q e mem
    exact nomatch absent.symm.trans group
  constructor
  · rintro g ⟨⟩
    exact Nat.le_refl _
  · exact fun q n _ => nofun
  · intro q e mem
    exact absurd (by simpa [World.createGroup] using mem) (unread q e)
  · intro q q' e e' mem
    exact absurd (by simpa [World.createGroup] using mem) (unread q e)
  · simpa [World.createGroup] using h.acked
  · intro q e mem
    exact absurd (by simpa [World.createGroup] using mem) (unread q e)
  · intro before q e after split ⟨q', n, created⟩
    rcases snoc_split split with ⟨_, same⟩ | ⟨after', split⟩
    · cases same
    · refine absurd absent (h.grouped q' n ?_)
      rw [split]
      exact List.mem_append_left _ created

theorem Consistent.deliver (h : Consistent w) {g : Group} {consumer : String}
    {entry : Entry FieldValuePairs} (group : w.group = some g)
    (next : (w.stream.xread g.lastDelivered 1).head? = some entry) :
    Consistent (w.deliver p consumer g entry) := by
  obtain ⟨mem, above, first⟩ := Stream.xread_head next
  have read : ∀ q e, .delivered q e ∈ (w.deliver p consumer g entry).log →
      (.delivered q e ∈ w.log ∧ e.id ≤ g.lastDelivered) ∨ (q = p ∧ e = entry) := by
    intro q e mem
    simp only [World.deliver, List.mem_append, List.mem_singleton, Event.delivered.injEq] at mem
    rcases mem with before | new
    · obtain ⟨g', group', le⟩ := h.below q e before
      cases group.symm.trans group'
      exact .inl ⟨before, le⟩
    · exact .inr new
  constructor
  · rintro g' ⟨⟩
    exact (w.stream.issued entry mem).2
  · exact fun q n _ => nofun
  · intro q e mem
    refine ⟨_, rfl, ?_⟩
    rcases read q e mem with ⟨_, le⟩ | ⟨_, rfl⟩
    · exact Nat.le_trans le (Nat.le_of_lt above)
    · exact Nat.le_refl _
  · intro q q' e e' mem mem' same
    rcases read q e mem with ⟨old, le⟩ | ⟨rfl, rfl⟩ <;>
      rcases read q' e' mem' with ⟨old', le'⟩ | ⟨rfl, rfl⟩
    · exact h.once q q' e e' old old' same
    · omega
    · omega
    · rfl
  · intro q ids acked i hi
    obtain ⟨e, mem, id⟩ := h.acked q ids (by simpa [World.deliver] using acked) i hi
    exact ⟨e, List.mem_append_left _ mem, id⟩
  · intro q e mem'
    rcases read q e mem' with ⟨old, _⟩ | ⟨_, rfl⟩
    · rcases h.kept q e old with ⟨he, g', owner, group', pending⟩ | ⟨ids, acked, hi⟩
      · cases group.symm.trans group'
        exact .inl ⟨he, _, owner, rfl, List.mem_append_left _ pending⟩
      · exact .inr ⟨ids, List.mem_append_left _ acked, hi⟩
    · exact .inl ⟨mem, _, consumer, rfl, List.mem_append_right _ (List.mem_singleton_self _)⟩
  · intro before q e after split created
    rcases snoc_split split with ⟨_, same⟩ | ⟨after', split⟩
    · cases same
    · rcases h.due before q e after' split created with ⟨he, g', group', later⟩ | ⟨q', read⟩
      · cases group.symm.trans group'
        rcases Nat.lt_or_eq_of_le (first e he later) with lt | same
        · exact .inl ⟨he, _, rfl, lt⟩
        · cases Stream.eq_of_id mem he same
          exact .inr ⟨p, List.mem_append_right _ (List.mem_singleton_self _)⟩
      · exact .inr ⟨q', List.mem_append_left _ read⟩

theorem Consistent.acknowledge (h : Consistent w) {ids : List Nat}
    (own : ∀ i ∈ ids, ∃ e, .delivered p e ∈ w.log ∧ e.id = i) :
    Consistent (w.acknowledge p ids) := by
  constructor
  · intro g group
    obtain ⟨g', group', rfl⟩ := Option.map_eq_some_iff.mp group
    exact h.bounded g' group'
  · intro q n mem
    have := h.grouped q n (by simpa [World.acknowledge] using mem)
    simpa [World.acknowledge] using this
  · intro q e mem
    obtain ⟨g, group, le⟩ := h.below q e (by simpa [World.acknowledge] using mem)
    exact ⟨_, Option.map_eq_some_iff.mpr ⟨g, group, rfl⟩, le⟩
  · intro q q' e e' mem mem'
    exact h.once q q' e e' (by simpa [World.acknowledge] using mem)
      (by simpa [World.acknowledge] using mem')
  · intro q acked mem i hi
    simp only [World.acknowledge, List.mem_append, List.mem_singleton, Event.acknowledged.injEq] at mem
    rcases mem with before | ⟨rfl, rfl⟩
    · obtain ⟨e, read, id⟩ := h.acked q acked before i hi
      exact ⟨e, List.mem_append_left _ read, id⟩
    · obtain ⟨e, read, id⟩ := own i hi
      exact ⟨e, List.mem_append_left _ read, id⟩
  · intro q e mem
    have read : .delivered q e ∈ w.log := by simpa [World.acknowledge] using mem
    by_cases named : e.id ∈ ids
    · obtain ⟨e', read', id⟩ := own e.id named
      cases h.once q p e e' read read' id.symm
      exact .inr ⟨ids, List.mem_append_right _ (List.mem_singleton_self _), named⟩
    · rcases h.kept q e read with ⟨he, g, consumer, group, pending⟩ | ⟨acked, mem, hi⟩
      · refine .inl ⟨he, _, consumer, Option.map_eq_some_iff.mpr ⟨g, group, rfl⟩, ?_⟩
        simp [pending, named]
      · exact .inr ⟨acked, List.mem_append_left _ mem, hi⟩
  · intro before q e after split created
    rcases snoc_split split with ⟨_, same⟩ | ⟨after', split⟩
    · cases same
    · rcases h.due before q e after' split created with ⟨he, g, group, later⟩ | ⟨q', read⟩
      · exact .inl ⟨he, _, Option.map_eq_some_iff.mpr ⟨g, group, rfl⟩, later⟩
      · exact .inr ⟨q', List.mem_append_left _ read⟩

theorem Consistent.delete (h : Consistent w) {ids : List Nat}
    (own : ∀ i ∈ ids, ∃ acked, .acknowledged p acked ∈ w.log ∧ i ∈ acked) :
    Consistent { w with stream := (w.stream.xdel ids).2 } := by
  have read : ∀ i ∈ ids, ∃ e acked, .acknowledged p acked ∈ w.log ∧ i ∈ acked ∧
      .delivered p e ∈ w.log ∧ e.id = i := by
    intro i hi
    obtain ⟨acked, mem, hi⟩ := own i hi
    obtain ⟨e, read, id⟩ := h.acked p acked mem i hi
    exact ⟨e, acked, mem, hi, read, id⟩
  have stays : ∀ e ∈ w.stream.entries, e.id ∉ ids → e ∈ (w.stream.xdel ids).2.entries := by
    intro e he other
    simp [Stream.xdel, he, other]
  refine ⟨h.bounded, h.grouped, h.below, h.once, h.acked, ?_, ?_⟩
  · intro q e mem
    by_cases named : e.id ∈ ids
    · obtain ⟨e', acked, mem', hi, read', id⟩ := read e.id named
      cases h.once q p e e' mem read' id.symm
      exact .inr ⟨acked, mem', hi⟩
    · rcases h.kept q e mem with ⟨he, pending⟩ | acked
      · exact .inl ⟨stays e he named, pending⟩
      · exact .inr acked
  · intro before q e after split created
    rcases h.due before q e after split created with ⟨he, g, group, later⟩ | read'
    · refine .inl ⟨stays e he fun named => ?_, g, group, later⟩
      obtain ⟨e', _, _, _, read', id⟩ := read e.id named
      obtain ⟨g', group', le⟩ := h.below p e' read'
      cases group.symm.trans group'
      omega
    · exact .inr read'

theorem Effect.consistent {serde : Serde} {a : Call} {cmd : Command} (h : Effect p cmd w w')
    (permitted : permits serde a p w cmd) (before : Consistent w) : Consistent w' := by
  cases h with
  | nothing | reinitialized | inserted => exact before.silent rfl rfl (.inl rfl)
  | fetched | updated | updatedOne | started => exact before.silent rfl rfl (.inr ⟨_, rfl, rfl⟩)
  | appended => exact before.append _ _
  | groupCreated absent => exact before.createGroup absent
  | delivered group next => exact before.deliver group next
  | acknowledged => exact before.acknowledge permitted
  | deleted => exact before.delete permitted

end Steps

section Runs

variable {serde : Serde} {conf : SchedulerSettings} {table : Table} {p q : Nat}
  {c d : Config Command Reply World Call Result} {e : Entry FieldValuePairs}

theorem reach_consistent
    (reached : Machine.Reach (machine serde conf) Machine.anyStep (.initial (.start table)) c) :
    Consistent c.world := by
  refine reached.invariant (I := fun c => Consistent c.world) (.start table) ?_
  intro c act d before consistent _ hs
  rcases step_effect hs with same | ⟨p, o, a, cmd, k, _, live, effect⟩
  · rw [same]
    exact consistent
  · exact effect.consistent (reach_permits before live) consistent

theorem reach_consumer
    (reached : Machine.Reach (machine serde conf) Machine.anyStep (.initial (.start table)) c)
    (read : .delivered q e ∈ c.world.log) : (c.procs q).call = some .consumerOperations := by
  refine reached.invariant (I := fun c => .delivered q e ∈ c.world.log →
    (c.procs q).call = some .consumerOperations) nofun ?_ read
  intro c act d before consumer _ hs read
  refine Machine.step_call hs ?_
  rcases step_effect hs with same | ⟨p, o, a, cmd, k, _, live, effect⟩
  · exact consumer (same ▸ read)
  · have permitted := reach_permits before live
    rcases effect.log with log | ⟨ev, log, own, reads⟩
    · exact consumer (log ▸ read)
    · rw [log] at read
      rcases List.mem_append.mp read with old | new
      · exact consumer old
      · cases List.mem_singleton.mp new
        cases own
        obtain ⟨_, rfl⟩ := reads e rfl
        cases permitted
        exact congrArg Proc.call live

/- How far the run of a consumer has come. -/

def InProgress (c : Config Command Reply World Call Result) (q : Nat) : Prop :=
  ∃ cmd k, c.procs q = .live .consumerOperations (.await cmd k)

def Returned (c : Config Command Reply World Call Result) (q : Nat) : Prop :=
  c.procs q = .live .consumerOperations (.done (.flow (.ok ())))

def Failed (c : Config Command Reply World Call Result) (q : Nat) : Prop :=
  c.procs q = .crashed .consumerOperations ∨
    ∃ r, r ≠ .flow (.ok ()) ∧ c.procs q = .live .consumerOperations (.done r)

theorem consumer_cases (call : (c.procs q).call = some .consumerOperations) :
    InProgress c q ∨ Returned c q ∨ Failed c q := by
  cases at_ : c.procs q with
  | idle =>
    rw [at_] at call
    cases call
  | crashed a =>
    rw [at_] at call
    cases call
    exact .inr (.inr (.inl at_))
  | live a t =>
    rw [at_] at call
    cases call
    cases t with
    | await cmd k => exact .inl ⟨cmd, k, at_⟩
    | done r =>
      by_cases ok : r = .flow (.ok ())
      · subst ok
        exact .inr (.inl at_)
      · exact .inr (.inr (.inr ⟨r, ok, at_⟩))

/-- A batch that was appended when the group existed is still to be delivered, or was
delivered to one consumer run. That run is in progress; or it has marked the valid trackers
and started their workflows; or it has failed, and the entry is still pending unless the run
has acknowledged it. -/
theorem delivered_or_deliverable
    (reached : Machine.Reach (machine serde conf) Machine.anyStep (.initial (.start table)) c)
    {before after : List Event} (log : c.world.log = before ++ .appended p e :: after)
    (created : ∃ p n, .groupCreated p n ∈ before) :
    Deliverable c.world e ∨ ∃ q, .delivered q e ∈ c.world.log ∧
      (∀ q', .delivered q' e ∈ c.world.log → q' = q) ∧
      (InProgress c q ∨ (Returned c q ∧ Handled serde q c.world e) ∨
        (Failed c q ∧ (Pending c.world e ∨ Acknowledged c.world q e))) := by
  have consistent := reach_consistent reached
  rcases consistent.due before p e after log created with deliverable | ⟨q, read⟩
  · exact .inl deliverable
  · refine .inr ⟨q, read, fun q' read' => consistent.once q' q e e read' read rfl, ?_⟩
    rcases consumer_cases (reach_consumer reached read) with running | returned | failed
    · exact .inl running
    · exact .inr (.inl ⟨returned, reach_handled reached returned read⟩)
    · exact .inr (.inr ⟨failed, consistent.kept q e read⟩)

/-- The group is past the entry, and has given it to these processes at most. -/
def Passed (e : Entry FieldValuePairs) (readers : List Nat) (w : World) : Prop :=
  (∃ g, w.group = some g ∧ e.id ≤ g.lastDelivered) ∧ ∀ q, .delivered q e ∈ w.log → q ∈ readers

theorem Passed.not_deliverable {readers : List Nat} {w : World} (passed : Passed e readers w) :
    ¬ Deliverable w e := by
  rintro ⟨_, g, group, later⟩
  obtain ⟨⟨g', group', le⟩, _⟩ := passed
  cases group.symm.trans group'
  exact absurd later (Nat.not_lt_of_le le)

theorem Effect.passed {readers : List Nat} {cmd : Command} {w w' : World} (h : Effect p cmd w w')
    (passed : Passed e readers w) : Passed e readers w' := by
  obtain ⟨⟨g, group, le⟩, given⟩ := passed
  cases h with
  | nothing | reinitialized | inserted | deleted => exact ⟨⟨g, group, le⟩, given⟩
  | fetched | updated | updatedOne | appended | started =>
    refine ⟨⟨g, group, le⟩, fun q mem => ?_⟩
    rcases List.mem_append.mp mem with old | new
    · exact given q old
    · cases List.mem_singleton.mp new
  | groupCreated absent => exact nomatch absent.symm.trans group
  | delivered group' next =>
    cases group.symm.trans group'
    obtain ⟨_, above, _⟩ := Stream.xread_head next
    refine ⟨⟨_, rfl, Nat.le_trans le (Nat.le_of_lt above)⟩, fun q mem => ?_⟩
    rcases List.mem_append.mp mem with old | new
    · exact given q old
    · cases List.mem_singleton.mp new
      omega
  | acknowledged =>
    refine ⟨⟨_, Option.map_eq_some_iff.mpr ⟨g, group, rfl⟩, le⟩, fun q mem => ?_⟩
    rcases List.mem_append.mp mem with old | new
    · exact given q old
    · cases List.mem_singleton.mp new

theorem reach_passed {readers : List Nat} (passed : Passed e readers c.world)
    (run : Machine.Reach (machine serde conf) Machine.anyStep c d) : Passed e readers d.world := by
  refine run.invariant (I := fun d => Passed e readers d.world) passed ?_
  intro c act d _ passed _ hs
  rcases step_effect hs with same | ⟨p, o, a, cmd, k, _, _, effect⟩
  · rw [same]
    exact passed
  · exact effect.passed passed

end Runs

/- A producer run that appends the one batch, on any process. -/
def producerRun (p : Nat) : List (Action Choice Empty Call) :=
  [.spawn p .producerFlow, .step p {}, .step p {}, .step p {}, .step p {}, .step p { uuid := "b" },
    .step p {}, .step p {}, .step p {}, .step p {}]

def groupRun (p : Nat) : List (Action Choice Empty Call) :=
  [.spawn p .consumerOperations, .step p { uuid := "c" }, .step p {}, .step p {}]

def dueEntry : Entry FieldValuePairs :=
  ⟨1, [("id", "b"), ("group_name", "SCHEDULER_GROUP"), ("stream_name", "SCHEDULER_STREAM"),
    ("connection_name", ""), ("created_time", "0"), ("rule", ""), ("trackers", dueTaskText)]⟩

def producerLog : List Event :=
  [.fetched 0 ["sync"], .fetched 0 [],
    .updated 0 ["sync"] (ProcessTrackerUpdate.toInternal 0 (.statusUpdate .processing none))]

set_option maxRecDepth 2000 in
/-- The consumer that has created the group reads the batch, acknowledges and deletes it, and starts
its task. -/
theorem delivered_or_deliverable_started :
    ∃ c before after, Machine.Reach (machine dueTaskSerde sampleSettings) Machine.anyStep
        (.initial dueWorld) c ∧ c.world.log = before ++ .appended 0 dueEntry :: after ∧
      Returned c 1 ∧ .started 1 (pickedUp dueTask) ∈ after ∧
      (Deliverable c.world dueEntry ∨ ∃ q, .delivered q dueEntry ∈ c.world.log ∧
        (∀ q', .delivered q' dueEntry ∈ c.world.log → q' = q) ∧
        (InProgress c q ∨ (Returned c q ∧ Handled dueTaskSerde q c.world dueEntry) ∨
          (Failed c q ∧ (Pending c.world dueEntry ∨ Acknowledged c.world q dueEntry)))) := by
  obtain ⟨c, ran, log, returned⟩ : ∃ c, (machine dueTaskSerde sampleSettings).run
      (.initial dueWorld) (groupRun 1 ++ producerRun 0 ++ List.replicate 7 (.step 1 {})) = some c ∧
      c.world.log = (.groupCreated 1 0 :: producerLog) ++ .appended 0 dueEntry ::
        [.delivered 1 dueEntry, .acknowledged 1 [1], .updated 1 ["sync"] (startedUpdate 0),
          .started 1 (pickedUp dueTask)] ∧
      c.procs 1 = .live .consumerOperations (.done (.flow (.ok ()))) := ⟨_, rfl, rfl, rfl⟩
  have reached := Machine.reach_of_run ran
  exact ⟨c, _, _, reached, log, returned, by simp,
    delivered_or_deliverable reached log ⟨1, 0, List.mem_cons_self⟩⟩

/-- The batch was appended, its task is waiting, and in no run from here on anybody is given the
batch that has not been given it by now. -/
structure Lost (readers : List Nat) (c : Config Command Reply World Call Result) : Prop where
  reached : Machine.Reach (machine dueTaskSerde sampleSettings) Machine.anyStep (.initial dueWorld) c
  appended : .appended 0 dueEntry ∈ c.world.log
  waiting : c.world.table.status dueTask.id = some .processing
  unstarted : ∀ q task, .started q task ∉ c.world.log
  never : ∀ d, Machine.Reach (machine dueTaskSerde sampleSettings) Machine.anyStep c d →
    ¬ Deliverable d.world dueEntry ∧ ∀ q, .delivered q dueEntry ∈ d.world.log → q ∈ readers

theorem lost_of_passed {readers : List Nat} {c : Config Command Reply World Call Result}
    {actions : List (Action Choice Empty Call)}
    (ran : (machine dueTaskSerde sampleSettings).run (.initial dueWorld) actions = some c)
    (appended : .appended 0 dueEntry ∈ c.world.log)
    (waiting : c.world.table.status dueTask.id = some .processing)
    (unstarted : ∀ q task, .started q task ∉ c.world.log) (passed : Passed dueEntry readers c.world) :
    Lost readers c :=
  ⟨Machine.reach_of_run ran, appended, waiting, unstarted, fun _ run =>
    have later := reach_passed passed run
    ⟨later.not_deliverable, later.2⟩⟩

set_option maxRecDepth 2000 in
/-- A batch with a valid task is lost in three ways. It is appended before the group exists, which
then starts behind it; the consumer that was given it crashes before it has decoded it; or the
consumer acknowledges and deletes it, and the status update fails then. -/
theorem batches_lost :
    Contains dueTaskSerde dueEntry.fields dueTask.id ∧
      dueTask.isValidBusinessStatus validBusinessStatuses = true ∧ (∃ c, Lost [] c) ∧
      (∃ c, Lost [1] c ∧ c.procs 1 = .crashed .consumerOperations ∧ Pending c.world dueEntry) ∧
      ∃ c, Lost [1] c ∧ c.world.stream.entries = [] ∧
        c.procs 1 = .live .consumerOperations (.done (.flow (.error .processFetchingFailed))) := by
  refine ⟨⟨dueTaskText, [dueTask], rfl, ?_, List.mem_singleton_self _⟩, by decide, ?_, ?_, ?_⟩
  · simp [ProcessTrackerBatch.parseTrackers_ok, dueTaskSerde]
  · obtain ⟨c, ran, log, group, waiting⟩ : ∃ c, (machine dueTaskSerde sampleSettings).run
        (.initial dueWorld) (producerRun 0 ++ groupRun 1) = some c ∧
        c.world.log = producerLog ++ [.appended 0 dueEntry, .groupCreated 1 1] ∧
        c.world.group = some ⟨1, []⟩ ∧ c.world.table.status dueTask.id = some .processing :=
      ⟨_, rfl, rfl, rfl, rfl⟩
    refine ⟨c, lost_of_passed ran ?_ waiting ?_ ⟨⟨_, group, Nat.le_refl _⟩, ?_⟩⟩ <;> simp [log, producerLog]
  · obtain ⟨c, ran, log, group, waiting, crashed, entries⟩ : ∃ c,
        (machine dueTaskSerde sampleSettings).run (.initial dueWorld)
          (groupRun 1 ++ producerRun 0 ++ [.step 1 {}, .step 1 {}, .crash 1]) = some c ∧
        c.world.log = .groupCreated 1 0 :: producerLog ++
          [.appended 0 dueEntry, .delivered 1 dueEntry] ∧
        c.world.group = some ⟨1, [(1, "consumer_c")]⟩ ∧
        c.world.table.status dueTask.id = some .processing ∧
        c.procs 1 = .crashed .consumerOperations ∧ c.world.stream.entries = [dueEntry] :=
      ⟨_, rfl, rfl, rfl, rfl, rfl, rfl⟩
    refine ⟨c, lost_of_passed ran ?_ waiting ?_ ⟨⟨_, group, Nat.le_refl _⟩, ?_⟩, crashed,
      by simp [entries], _, _, group, List.mem_singleton_self _⟩ <;> simp [log, producerLog]
  · obtain ⟨c, ran, log, group, waiting, failed, entries⟩ : ∃ c,
        (machine dueTaskSerde sampleSettings).run (.initial dueWorld)
          (groupRun 1 ++ producerRun 0 ++ List.replicate 5 (.step 1 {}) ++
            [.step 1 { database := .lost }]) = some c ∧
        c.world.log = .groupCreated 1 0 :: producerLog ++
          [.appended 0 dueEntry, .delivered 1 dueEntry, .acknowledged 1 [1]] ∧
        c.world.group = some ⟨1, []⟩ ∧ c.world.table.status dueTask.id = some .processing ∧
        c.procs 1 = .live .consumerOperations (.done (.flow (.error .processFetchingFailed))) ∧
        c.world.stream.entries = [] :=
      ⟨_, rfl, rfl, rfl, rfl, rfl, rfl⟩
    refine ⟨c, lost_of_passed ran ?_ waiting ?_ ⟨⟨_, group, Nat.le_refl _⟩, ?_⟩, entries, failed⟩ <;>
      simp [log, producerLog]

end Mercado.Scheduler
