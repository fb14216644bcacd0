import Mercado.Scheduler.Delivery

/-! When a finished task stays finished: once no flow in progress has anything left to do
with it and the stream has no batch of it left to deliver. -/
namespace Mercado.Scheduler
open Async Redis

section Touches

variable (serde : Serde) (id : String)

/-- The commands that can change the status of the task to something else than `Finish`,
or bring the task to a workflow. -/
def Touches : Command → Prop
  | .updateProcessStatusByIds ids u => id ∈ ids ∧ u.status ≠ some .finish
  | .updateById i u => i = id ∧ u.status ≠ some .finish
  | .xadd fields => Contains serde fields id
  | .startWorkflow process => process.id = id
  | _ => False

/-- No call is made that is given the task: reset, retry, update, or an append of a list of
tasks that contains it. -/
def spares (_ : Config Command Reply World Call Result) : Action Choice Empty Call → Prop
  | .spawn _ a => id ∉ a.names
  | _ => True

/-- The task is finished, no batch of it is left to deliver, and no flow that has fetched,
read or been given it can still do something with it. -/
structure Absorbed (c : Config Command Reply World Call Result) : Prop where
  finished : c.world.table.status id = some .finish
  undeliverable : ∀ e, Deliverable c.world e → ¬ Contains serde e.fields id
  free : ∀ p a t, c.procs p = .live a t → Known serde a p c.world id →
    ¬ t.may (Touches serde id)

end Touches

section Steps

variable {serde : Serde} {conf : SchedulerSettings} {table : Table} {id : String} {p : Nat}
  {a : Call} {cmd : Command} {w w' : World} {c d : Config Command Reply World Call Result}

theorem known_of_touches (faithful : serde.Faithful) (permitted : permits serde a p w cmd)
    (touches : Touches serde id cmd) : Known serde a p w id := by
  cases cmd with
  | updateProcessStatusByIds ids u =>
    rcases permitted with finish | named
    · exact absurd finish touches.2
    · exact named id touches.1
  | updateById i u =>
    rcases permitted with finish | named
    · exact absurd finish touches.2
    · exact touches.1 ▸ named
  | xadd fields =>
    obtain ⟨batch, written, known⟩ := permitted
    obtain ⟨task, ht, rfl⟩ := List.mem_map.mp (contains_batch faithful written touches)
    exact known task ht
  | startWorkflow process =>
    have same : process.id = id := touches
    exact same ▸ permitted
  | _ => exact False.elim touches

theorem update_finished {ids : List String} {u : ProcessTrackerUpdateInternal}
    (spared : ¬ (id ∈ ids ∧ u.status ≠ some .finish))
    (finished : w.table.status id = some .finish) :
    (w.update p ids u).table.status id = some .finish := by
  rw [World.update, Table.status_updateByIds, finished, Option.map_some]
  by_cases named : id ∈ ids
  · have finish : u.status = some .finish := not_not.mp fun other => spared ⟨named, other⟩
    simp [finish]
  · simp [named]

theorem Effect.finished (h : Effect p cmd w w') (spared : ¬ Touches serde id cmd)
    (finished : w.table.status id = some .finish) : w'.table.status id = some .finish := by
  cases h with
  | updated => exact update_finished spared finished
  | updatedOne =>
    refine update_finished (fun named => spared ?_) finished
    exact ⟨(List.mem_singleton.mp named.1).symm, named.2⟩
  | reinitialized => exact w.table.status_reinitialize finished _ _
  | inserted free => exact w.table.status_insert free finished
  | _ => exact finished

theorem Effect.undeliverable (h : Effect p cmd w w') (spared : ¬ Touches serde id cmd)
    (before : ∀ e, Deliverable w e → ¬ Contains serde e.fields id) :
    ∀ e, Deliverable w' e → ¬ Contains serde e.fields id := by
  rintro e ⟨he, g, group, later⟩
  cases h with
  | appended =>
    rcases List.mem_append.mp he with old | new
    · exact before e ⟨old, g, group, later⟩
    · cases List.mem_singleton.mp new
      exact spared
  | groupCreated absent =>
    cases group
    exact absurd later (Nat.not_lt_of_le (w.stream.issued e he).2)
  | delivered group' next =>
    cases group
    obtain ⟨_, above, _⟩ := Stream.xread_head next
    exact before e ⟨he, _, group', Nat.lt_trans above later⟩
  | acknowledged =>
    obtain ⟨g', group', rfl⟩ := Option.map_eq_some_iff.mp group
    exact before e ⟨he, g', group', later⟩
  | deleted => exact before e ⟨List.mem_of_mem_filter he, g, group, later⟩
  | _ => exact before e ⟨he, g, group, later⟩

theorem Effect.unknown (h : Effect p cmd w w') (permitted : permits serde a p w cmd)
    (finished : w.table.status id = some .finish)
    (undeliverable : ∀ e, Deliverable w e → ¬ Contains serde e.fields id)
    (unknown : ¬ Known serde a p w id) : ¬ Known serde a p w' id := by
  have silent : ∀ ev : Event, w'.log = w.log ++ [ev] →
      (∀ ids, ev = .fetched p ids → id ∉ ids) →
      (∀ e, ev = .delivered p e → ¬ Contains serde e.fields id) → ¬ Known serde a p w' id := by
    intro ev log fetched delivered known
    rcases known with named | ⟨ids, mem, hid⟩ | ⟨e, mem, contains⟩
    · exact unknown (.inl named)
    · rcases List.mem_append.mp (log ▸ mem) with old | new
      · exact unknown (.inr (.inl ⟨ids, old, hid⟩))
      · exact fetched ids (List.mem_singleton.mp new).symm hid
    · rcases List.mem_append.mp (log ▸ mem) with old | new
      · exact unknown (.inr (.inr ⟨e, old, contains⟩))
      · exact delivered e (List.mem_singleton.mp new).symm contains
  cases h with
  | nothing | reinitialized | inserted | deleted => exact unknown
  | fetched =>
    refine silent _ rfl ?_ nofun
    rintro ids ⟨⟩ mem
    have due := w.table.status_of_found mem
    rcases permitted with rfl | rfl <;> exact nomatch finished.symm.trans due
  | delivered group next =>
    refine silent _ rfl nofun ?_
    rintro e ⟨⟩
    obtain ⟨he, above, _⟩ := Stream.xread_head next
    exact undeliverable _ ⟨he, _, group, above⟩
  | _ => exact silent _ rfl nofun nofun

theorem Absorbed.spared (faithful : serde.Faithful) (absorbed : Absorbed serde id c)
    (permitted : permits serde a p c.world cmd) {k : Reply cmd → SchedulerTask Result}
    (live : c.procs p = .live a (.await cmd k)) : ¬ Touches serde id cmd :=
  fun touches => absorbed.free p a _ live (known_of_touches faithful permitted touches) (.inl touches)

theorem known_other {act : Action Choice Empty Call} {q : Nat}
    (hs : (machine serde conf).step c act = some d) (other : act.process ≠ some q)
    (known : Known serde a q d.world id) : Known serde a q c.world id :=
  known_durable id _ _ (extends_of_own ((history serde conf).step_other hs other).symm) known

theorem Absorbed.step (faithful : serde.Faithful)
    (reached : Machine.Reach (machine serde conf) Machine.anyStep (.initial (.start table)) c)
    (absorbed : Absorbed serde id c) {act : Action Choice Empty Call} (spared : spares id c act)
    (hs : (machine serde conf).step c act = some d) : Absorbed serde id d := by
  have others : ∀ q b t, act.process ≠ some q → d.procs q = .live b t →
      Known serde b q d.world id → ¬ t.may (Touches serde id) := by
    intro q b t other live known
    rw [Machine.step_other hs other] at live
    exact absorbed.free q b t live (known_other hs other known)
  cases act with
  | spawn p a =>
    obtain ⟨idle, rfl⟩ := Machine.step_spawn hs
    refine ⟨absorbed.finished, absorbed.undeliverable, fun q b t live known => ?_⟩
    by_cases same : q = p
    · subst same
      rw [Config.setProc_self] at live
      cases live
      have silent := (history serde conf).idle_silent reached (fun _ => rfl) q idle
      rcases known with named | ⟨ids, mem, _⟩ | ⟨e, mem, _⟩
      · exact absurd named spared
      · exact absurd silent (List.ne_nil_of_mem (mem_ownEvents.mpr ⟨mem, rfl⟩))
      · exact absurd silent (List.ne_nil_of_mem (mem_ownEvents.mpr ⟨mem, rfl⟩))
    · exact others q b t (fun own => same (Option.some.inj own).symm) live known
  | step p o =>
    obtain ⟨a, cmd, k, live, procs, world⟩ := Machine.step_step hs
    have permitted := reach_permits reached live
    have effect : Effect p cmd c.world d.world := world ▸ exec_effect p cmd o c.world
    have untouched := absorbed.spared faithful permitted live
    refine ⟨effect.finished untouched absorbed.finished,
      effect.undeliverable untouched absorbed.undeliverable, fun q b t live' known => ?_⟩
    by_cases same : q = p
    · subst same
      rw [procs, Config.setProc_self] at live'
      cases live'
      by_cases before : Known serde a q c.world id
      · exact fun may => absorbed.free q a _ live before (.inr ⟨_, may⟩)
      · exact absurd known (effect.unknown permitted absorbed.finished absorbed.undeliverable before)
    · exact others q b t (fun own => same (Option.some.inj own).symm) live' known
  | crash p =>
    obtain ⟨a, cmd, k, live, rfl⟩ := Machine.step_crash hs
    refine ⟨absorbed.finished, absorbed.undeliverable, fun q b t live' known => ?_⟩
    by_cases same : q = p
    · subst same
      rw [Config.setProc_self] at live'
      cases live'
    · exact others q b t (fun own => same (Option.some.inj own).symm) live' known
  | env e => exact nomatch e

/-- In every run in which the task is not reset, retried, updated or handed over again, it
stays finished and never comes to a workflow. -/
theorem finish_absorbing (faithful : serde.Faithful)
    (reached : Machine.Reach (machine serde conf) Machine.anyStep (.initial (.start table)) c)
    (absorbed : Absorbed serde id c) (run : Machine.Reach (machine serde conf) (spares id) c d) :
    d.world.table.status id = some .finish ∧
      ∀ p a process k, d.procs p = .live a (.await (.startWorkflow process) k) →
        process.id ≠ id := by
  have both : Machine.Reach (machine serde conf) Machine.anyStep (.initial (.start table)) d ∧
      Absorbed serde id d := by
    refine run.invariant (I := fun d => Machine.Reach (machine serde conf) Machine.anyStep
      (.initial (.start table)) d ∧ Absorbed serde id d) ⟨reached, absorbed⟩ ?_
    rintro c act d _ ⟨reached, absorbed⟩ spared hs
    exact ⟨.next act reached trivial hs, absorbed.step faithful reached spared hs⟩
  obtain ⟨reached, absorbed⟩ := both
  refine ⟨absorbed.finished, fun p a process k live => ?_⟩
  exact absorbed.spared faithful (reach_permits reached live) live

end Steps

/- The task is finished before any flow sees it. -/
def finishRun (p : Nat) : List (Action Choice Empty Call) :=
  [.spawn p (.finishProcessWithBusinessStatus dueTask "COMPLETED"), .step p {}, .step p {}]

theorem finish_absorbing_unseen :
    ∃ c d, Machine.Reach (machine dueTaskSerde sampleSettings) Machine.anyStep
        (.initial dueWorld) c ∧
      Machine.Reach (machine dueTaskSerde sampleSettings) (spares dueTask.id) c d ∧
      (d.world.table.status dueTask.id = some .finish ∧
        ∀ p a process k, d.procs p = .live a (.await (.startWorkflow process) k) →
          process.id ≠ dueTask.id) := by
  obtain ⟨c, ran, finished, group, procs⟩ : ∃ c, (machine dueTaskSerde sampleSettings).run
      (.initial dueWorld) (finishRun 0) = some c ∧
      c.world.table.status dueTask.id = some .finish ∧ c.world.group = none ∧
      ∀ p a t, c.procs p = .live a t → ∃ r, t = .done r := by
    refine ⟨_, rfl, rfl, rfl, fun p a t live => ?_⟩
    cases p with
    | zero =>
      cases live
      exact ⟨_, rfl⟩
    | succ p => cases live
  have whole : (machine dueTaskSerde sampleSettings).run (.initial dueWorld)
      (finishRun 0 ++ (producerRun 1).take 6) = some _ := rfl
  have met : (machine dueTaskSerde sampleSettings).Meets (spares dueTask.id) c
      ((producerRun 1).take 6) := by
    refine Machine.meets_each fun act mem c => ?_
    replace mem := List.mem_of_mem_take mem
    simp only [producerRun, List.mem_cons, List.not_mem_nil, or_false] at mem
    rcases mem with rfl | rfl | rfl | rfl | rfl | rfl | rfl | rfl | rfl | rfl
    · exact List.not_mem_nil
    all_goals trivial
  have absorbed : Absorbed dueTaskSerde dueTask.id c := by
    refine ⟨finished, ?_, ?_⟩
    · rintro e ⟨_, g, some, _⟩
      exact nomatch group.symm.trans some
    · rintro p a t live _ may
      obtain ⟨r, rfl⟩ := procs p a t live
      exact may
  have reached := Machine.reach_of_run ran
  have run := Machine.reach_of_meets met (Machine.run_rest ran whole)
  exact ⟨c, _, reached, run, finish_absorbing dueTaskSerde_faithful reached absorbed run⟩

/-- A producer has fetched the task when it is finished, and sets it to `Processing`. -/
theorem finish_undone :
    ∃ c d, Machine.Reach (machine dueTaskSerde sampleSettings) Machine.anyStep
        (.initial dueWorld) c ∧
      c.world.table.status dueTask.id = some .finish ∧
      Machine.Reach (machine dueTaskSerde sampleSettings) (spares dueTask.id) c d ∧
      d.world.table.status dueTask.id = some .processing := by
  obtain ⟨c, ran, finished, d, next, undone⟩ : ∃ c, (machine dueTaskSerde sampleSettings).run
      (.initial dueWorld) ((producerRun 0).take 7 ++ finishRun 1) = some c ∧
      c.world.table.status dueTask.id = some .finish ∧
      ∃ d, (machine dueTaskSerde sampleSettings).step c (.step 0 {}) = some d ∧
        d.world.table.status dueTask.id = some .processing := ⟨_, rfl, rfl, _, rfl, rfl⟩
  exact ⟨c, d, Machine.reach_of_run ran, finished, .next (.step 0 {}) .start trivial next, undone⟩

end Mercado.Scheduler
