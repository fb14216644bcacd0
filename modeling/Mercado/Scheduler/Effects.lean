import Mercado.Async.History
import Mercado.Scheduler.Flows

/-! What one command of the scheduler can do to the shared state, whichever way it goes. -/
namespace Mercado.Scheduler
open Async Redis

inductive Effect (p : Nat) : Command → World → World → Prop
  | nothing {cmd w} : Effect p cmd w w
  | fetched {lower upper status limit w} :
    Effect p (.findProcessesByTimeStatus lower upper status limit) w
      (w.note (.fetched p
        ((w.table.findByTimeStatus lower upper status limit).map ProcessTracker.id)))
  | updated {ids u w} : Effect p (.updateProcessStatusByIds ids u) w (w.update p ids u)
  | updatedOne {id u w} : Effect p (.updateById id u) w (w.update p [id] u)
  | reinitialized {ids time w} : Effect p (.reinitializeLimboProcesses ids time) w
      { w with table := w.table.reinitialize ids time }
  | inserted {new table w} (free : w.table.insert new = some table) :
    Effect p (.insertProcess new) w { w with table := table }
  | appended {fields gap w} : Effect p (.xadd fields) w (w.append p gap fields)
  | groupCreated {w} (absent : w.group = none) : Effect p .xgroupCreate w (w.createGroup p)
  | delivered {consumer g entry w} (group : w.group = some g)
      (next : (w.stream.xread g.lastDelivered 1).head? = some entry) :
    Effect p (.xreadgroup consumer) w (w.deliver p consumer g entry)
  | acknowledged {ids w} : Effect p (.xack ids) w (w.acknowledge p ids)
  | deleted {ids w} : Effect p (.xdel ids) w { w with stream := (w.stream.xdel ids).2 }
  | started {process w} :
    Effect p (.startWorkflow process) w (w.note (.started p process))

section

variable {p : Nat} {cmd : Command} {w w' : World}

theorem through_effect {ε α : Type} {d : Delivery} {err : ε} {x : α × World}
    (h : Effect p cmd w x.2) : Effect p cmd w (d.through err w x).2 := by
  cases d with
  | answered | unanswered => exact h
  | lost => exact .nothing

theorem exec_effect (p : Nat) (cmd : Command) (o : Choice) (w : World) :
    Effect p cmd w (exec p cmd o w).2 := by
  cases cmd with
  | isRedisAvailable | now | newUuid => exact .nothing
  | findProcessesByTimeStatus lower upper status limit => exact through_effect .fetched
  | updateProcessStatusByIds ids u =>
    simp only [exec]
    split
    · exact .nothing
    · exact through_effect .updated
  | reinitializeLimboProcesses ids time => exact through_effect .reinitialized
  | updateById id u =>
    simp only [exec]
    split
    · exact .nothing
    · split
      · exact .nothing
      · exact through_effect .updatedOne
  | insertProcess new =>
    simp only [exec]
    split
    · exact .nothing
    · rename_i table free
      exact through_effect (.inserted free)
  | xadd fields => exact through_effect .appended
  | xgroupCreate =>
    simp only [exec]
    split
    · rename_i absent
      exact through_effect (.groupCreated absent)
    · exact .nothing
  | xreadgroup consumer =>
    simp only [exec]
    split
    · exact .nothing
    · rename_i g group
      split
      · exact .nothing
      · rename_i entry next
        exact through_effect (.delivered group next)
  | xack ids => exact through_effect .acknowledged
  | xdel ids => exact through_effect .deleted
  | startWorkflow process => exact .started

theorem Effect.log (h : Effect p cmd w w') :
    w'.log = w.log ∨ ∃ ev, w'.log = w.log ++ [ev] ∧ ev.client = p ∧
      ∀ e, ev = .delivered p e → ∃ consumer, cmd = .xreadgroup consumer := by
  cases h with
  | nothing | reinitialized | inserted | deleted => exact .inl rfl
  | delivered => exact .inr ⟨_, rfl, rfl, fun _ _ => ⟨_, rfl⟩⟩
  | fetched | updated | updatedOne | appended | groupCreated | acknowledged | started =>
    exact .inr ⟨_, rfl, rfl, nofun⟩

end

theorem step_effect {serde : Serde} {conf : SchedulerSettings}
    {c d : Config Command Reply World Call Result} {act : Action Choice Empty Call}
    (h : (machine serde conf).step c act = some d) :
    d.world = c.world ∨ ∃ p o a cmd k, act = .step p o ∧ c.procs p = .live a (.await cmd k) ∧
      Effect p cmd c.world d.world := by
  rcases Machine.step_world h with same | ⟨p, o, a, cmd, k, own, live, world⟩ | ⟨e, _⟩
  · exact .inl same
  · rw [world]
    exact .inr ⟨p, o, a, cmd, k, own, live, exec_effect p cmd o c.world⟩
  · exact nomatch e

def history (serde : Serde) (conf : SchedulerSettings) : History (machine serde conf) Event where
  log := World.log
  owner := fun ev => some ev.client
  exec := by
    intro p cmd o w
    rcases (exec_effect p cmd o w).log with same | ⟨ev, log, own, _⟩
    · exact ⟨[], same.trans (List.append_nil _).symm, fun _ mem => absurd mem List.not_mem_nil⟩
    · refine ⟨[ev], log, fun ev' mem => .inl ?_⟩
      rw [List.mem_singleton.mp mem, own]
  env := nofun

end Mercado.Scheduler
