import Mercado.Drainer.Loss
import Mercado.Drainer.Order

/-! With one drainer at a time the entries that are gone from the stream are settled: nothing that
was appended before one of them is executed after it. -/
namespace Mercado.Drainer
open Async Redis

variable {φ δ π : Type}

/-- The entry has been applied, and no entry before it has been executed since. -/
def Settled (log : List (Event φ)) (e : Entry φ) : Prop :=
  ∃ before run r after, log = before ++ .executed run e r :: after ∧ r.processed = true ∧
    ∀ x ∈ executions after, e.id ≤ x.1.id

theorem Settled.append {log more : List (Event φ)} {e : Entry φ} (settled : Settled log e)
    (later : ∀ x ∈ executions more, e.id ≤ x.1.id) : Settled (log ++ more) e := by
  obtain ⟨before, run, r, after, split, go, above⟩ := settled
  refine ⟨before, run, r, after ++ more, by simp [split], go, fun x mem => ?_⟩
  rw [executions_append] at mem
  rcases List.mem_append.mp mem with old | new
  · exact above x old
  · exact later x new

theorem Settled.quiet {log more : List (Event φ)} {e : Entry φ} (settled : Settled log e)
    (quiet : executions more = []) : Settled (log ++ more) e :=
  settled.append fun x mem => by rw [quiet] at mem; cases mem

theorem exec_quiet (run : Nat) (c : Command φ δ) (o : Choice) (w : Shard φ)
    (other : ∀ entry data, c ≠ .executeQuery entry data) :
    ∃ more, (exec run c o w).2.log = w.log ++ more ∧ executions more = [] ∧
      appendedEntries more = [] := by
  cases c with
  | executeQuery entry data => exact absurd rfl (other entry data)
  | streamReadEntries | streamTrimEntries | streamDeleteEntries =>
    cases h : o.redis <;> simp [exec, h, Delivery.through, executions, appendedEntries]
  | assertionFailed n m => exact ⟨[.assertionFailed run n m], rfl, rfl, rfl⟩

abbrev DrainerConfig (φ δ : Type) :=
  Config (Command φ δ) (Reply φ δ) (Shard φ) Nat (Except DrainerError Unit)

structure Settling (c : DrainerConfig φ δ) : Prop where
  gone : ∀ e ∈ appendedEntries c.world.log, e ∉ c.world.stream.entries → Settled c.world.log e
  current : ∀ run call cmd k, c.procs run = .live call (.await cmd k) →
    ∀ e ∈ processedEntries (executions (eventsBy run c.world.log)), Settled c.world.log e

variable {fromHashmap : φ → Except π δ} {streamName : String} {c d : DrainerConfig φ δ}

theorem Ordered.gone_before {w : Shard φ} (ordered : Ordered fromHashmap w) {e x : Entry φ}
    (appended : e ∈ appendedEntries w.log) (gone : e ∉ w.stream.entries)
    (there : x ∈ w.stream.entries) : e.id < x.id := by
  obtain ⟨front, split, -⟩ := ordered.gone
  have distinct := ordered.distinct
  rw [split] at appended distinct
  rcases List.mem_append.mp appended with inFront | still
  · exact (List.pairwise_append.mp distinct).2.2 e inFront x there
  · exact absurd still gone

section Step

variable (reached : Machine.Reach (machine fromHashmap streamName) Machine.oneAtATime
  (.initial Shard.empty) c) {run : Nat} {o : Choice}
include reached

theorem Settling.execute {entry : Entry φ} {data : δ} {call : Nat}
    {k : QueryResult → DrainerTask φ δ (Except DrainerError Unit)} (settling : Settling c)
    (live : c.procs run = .live call (.await (.executeQuery entry data) k))
    (hs : (machine fromHashmap streamName).step c (.step run o) = some d) : Settling d := by
  obtain ⟨_, _, _, live', procs, world⟩ := Machine.step_step hs
  rw [live] at live'
  cases live'
  have log : d.world.log = c.world.log ++ [.executed run entry o.query] := by rw [world]; rfl
  have stream : d.world.stream = c.world.stream := by rw [world]; rfl
  have ordered := ((inSequence fromHashmap streamName).sound reached).inv
  have reached' := Machine.Reach.next (.step run o) reached trivial hs
  have ordered' := ((inSequence fromHashmap streamName).sound reached').inv
  -- what the run has executed so far and this entry are the head of the stream
  obtain ⟨-, -, rest, head⟩ := ordered'.fits _ _ [] log
  rw [← ordered.stream] at head
  have inStream : entry ∈ c.world.stream.entries := by simp [← head]
  have sorted := c.world.stream.sorted
  rw [← head, List.append_assoc] at sorted
  have earlier : ∀ e ∈ processedEntries (executions (eventsBy run c.world.log)),
      e.id < entry.id := by
    intro e mem
    obtain ⟨r, executed, -⟩ := processed_result mem
    exact (List.pairwise_append.mp sorted).2.2 e (List.mem_map_of_mem executed) entry
      List.mem_cons_self
  have alone : ∀ e, Settled c.world.log e → e.id < entry.id →
      Settled (c.world.log ++ [.executed run entry o.query]) e := by
    intro e settled lt
    refine settled.append fun x mem => ?_
    rw [List.mem_singleton.mp mem]
    exact Nat.le_of_lt lt
  refine ⟨?_, ?_⟩
  · intro e appended gone
    rw [log, appendedEntries_append] at appended
    rw [stream] at gone
    rw [log]
    have old : e ∈ appendedEntries c.world.log := by simpa [appendedEntries] using appended
    exact alone e (settling.gone e old gone) (ordered.gone_before old gone inStream)
  · intro run' call' cmd' k' live' e mem
    by_cases same : run' = run
    · subst same
      rw [log] at mem ⊢
      rw [eventsBy_append, eventsBy_own rfl, executions_append, processedEntries,
        List.filter_append, List.map_append] at mem
      rcases List.mem_append.mp mem with old | new
      · exact alone e (settling.current _ _ _ _ live e old) (earlier e old)
      · obtain ⟨x, executed, rfl⟩ := List.mem_map.mp new
        obtain ⟨isNew, go⟩ := List.mem_filter.mp executed
        cases List.mem_singleton.mp isNew
        exact ⟨c.world.log, run', o.query, [], rfl, go, fun _ none => absurd none List.not_mem_nil⟩
    · rw [procs, Config.setProc_other same] at live'
      exact absurd (reached.alone (fun _ => rfl) live' live) same

theorem Settling.command {call : Nat} {cmd : Command φ δ}
    {k : Reply φ δ cmd → DrainerTask φ δ (Except DrainerError Unit)} (settling : Settling c)
    (live : c.procs run = .live call (.await cmd k))
    (other : ∀ entry data, cmd ≠ .executeQuery entry data)
    (hs : (machine fromHashmap streamName).step c (.step run o) = some d) : Settling d := by
  obtain ⟨_, _, _, live', procs, world⟩ := Machine.step_step hs
  rw [live] at live'
  cases live'
  obtain ⟨more, log, quiet, nothing⟩ := exec_quiet run cmd o c.world other
  have grown : d.world.log = c.world.log ++ more := by rw [world]; exact log
  have free : Machine.Reach (machine fromHashmap streamName) Machine.anyStep
      (.initial Shard.empty) c := reached.mono fun _ _ _ => trivial
  have drains : Drains run c.world d.world := by
    obtain ⟨_, _, _, _, _, kept, _⟩ :=
      ((lossless fromHashmap streamName).sound free).own_step trivial hs
    exact kept
  refine ⟨?_, ?_⟩
  · intro e appended gone
    rw [grown, appendedEntries_append, nothing, List.append_nil] at appended
    rw [grown]
    by_cases there : e ∈ c.world.stream.entries
    · obtain ⟨⟨r, executed, go⟩, -⟩ := drains.removes e there gone
      refine (settling.current run call cmd k live e ?_).quiet quiet
      exact List.mem_map.mpr ⟨(e, r), List.mem_filter.mpr ⟨mem_executions.mpr executed, go⟩, rfl⟩
    · exact (settling.gone e appended there).quiet quiet
  · intro run' call' cmd' k' live' e mem
    by_cases same : run' = run
    · subst same
      rw [world] at mem
      rw [grown]
      have same : executions (eventsBy run' (exec run' cmd o c.world).2.log) =
          executions (eventsBy run' c.world.log) := exec_executions run' cmd o c.world other
      rw [show (machine fromHashmap streamName).exec = exec from rfl, same] at mem
      exact (settling.current run' call cmd k live e mem).quiet quiet
    · rw [procs, Config.setProc_other same] at live'
      exact absurd (reached.alone (fun _ => rfl) live' live) same

end Step

theorem reach_settling
    (reached : Machine.Reach (machine fromHashmap streamName) Machine.oneAtATime
      (.initial Shard.empty) c) : Settling c := by
  induction reached with
  | start => exact ⟨nofun, nofun⟩
  | @next c d act before met hs settling =>
    cases act with
    | spawn run call =>
      obtain ⟨idle, rfl⟩ := Machine.step_spawn hs
      refine ⟨settling.gone, fun run' call' cmd k live e mem => ?_⟩
      by_cases same : run' = run
      · subst same
        have silent : eventsBy run' c.world.log = [] :=
          (shardHistory fromHashmap streamName).idle_silent before (fun _ => rfl) run' idle
        rw [Config.setProc_world, silent] at mem
        cases mem
      · rw [Config.setProc_other same] at live
        exact settling.current run' call' cmd k live e mem
    | step run o =>
      obtain ⟨call, cmd, k, live, -, -⟩ := Machine.step_step hs
      by_cases query : ∃ entry data, cmd = .executeQuery entry data
      · obtain ⟨entry, data, rfl⟩ := query
        exact settling.execute before live hs
      · exact settling.command before live (fun entry data same => query ⟨entry, data, same⟩) hs
    | crash run =>
      obtain ⟨call, cmd, k, live, rfl⟩ := Machine.step_crash hs
      refine ⟨settling.gone, fun run' call' cmd' k' live' e mem => ?_⟩
      by_cases same : run' = run
      · subst same
        rw [Config.setProc_self] at live'
        cases live'
      · rw [Config.setProc_other same] at live'
        exact settling.current run' call' cmd' k' live' e mem
    | env a =>
      obtain ⟨moved, procs⟩ := Machine.step_env hs
      have log : d.world.log =
          c.world.log ++ [.appended (c.world.stream.added a.gap a.fields)] := by
        rw [← Option.some.inj moved]
      have entries : d.world.stream.entries =
          c.world.stream.entries ++ [c.world.stream.added a.gap a.fields] := by
        rw [← Option.some.inj moved]
        rfl
      refine ⟨?_, ?_⟩
      · intro e appended gone
        rw [log, appendedEntries_append] at appended
        rw [entries] at gone
        rw [log]
        rcases List.mem_append.mp appended with old | new
        · exact (settling.gone e old fun there => gone (List.mem_append_left _ there)).quiet rfl
        · exact absurd (List.mem_append_right _ new) gone
      · intro run call cmd k live e mem
        rw [procs] at live
        have same : eventsBy run d.world.log = eventsBy run c.world.log := by
          rw [log]
          exact eventsBy_appends run c.world.log [c.world.stream.added a.gap a.fields]
        rw [same] at mem
        rw [log]
        exact (settling.current run call cmd k live e mem).quiet rfl

end Mercado.Drainer
