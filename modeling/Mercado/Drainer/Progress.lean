import Mercado.Async.Alone
import Mercado.Drainer.Run

/-! What runs one after the other get done when Redis answers and nobody appends: each takes
the next `max_read_count` entries off the stream, up to the first that does not go through. -/
namespace Mercado.Drainer
open Async Redis

variable {φ δ π : Type}

def answering (result : Entry φ → QueryResult) : Command φ δ → Shard φ → Choice
  | .executeQuery entry _, _ => { query := result entry }
  | _, _ => {}

/-- Redis answers, and how a query goes is told by its entry. -/
abbrev carryOut (result : Entry φ → QueryResult) (run : Nat) (c : Command φ δ) (w : Shard φ) :
    Reply φ δ c × Shard φ := exec run c (answering result c w) w

variable (fromHashmap : φ → Except π δ) (result : Entry φ → QueryResult)

/-- The entry decodes, and its query is one after which the loop goes on. -/
def goesThrough (entry : Entry φ) : Bool :=
  (fromHashmap entry.fields).isOk && (result entry).processed

abbrev runAlone (streamName : String) (maxReadCount run : Nat) (w : Shard φ) :
    Except DrainerError Unit × Shard φ :=
  (machine fromHashmap streamName).alone (answering result) run maxReadCount w

def rounds (streamName : String) (maxReadCount k run : Nat) (w : Shard φ) :
    List (Except DrainerError Unit) × Shard φ :=
  (machine fromHashmap streamName).inTurn (answering result) run
    (List.replicate k maxReadCount) w

variable {result}

@[simp] theorem carryOut_read (run id count : Nat) (name : String) (w : Shard φ) :
    carryOut result run (.streamReadEntries name id count : Command φ δ) w =
      (readReply name (w.stream.xread id count),
        { w with log := w.log ++ [.read run (w.stream.xread id count)] }) := rfl

@[simp] theorem carryOut_execute (run : Nat) (e : Entry φ) (data : δ) (w : Shard φ) :
    carryOut result run (.executeQuery e data) w =
      (result e, { w with log := w.log ++ [.executed run e (result e)] }) := rfl

variable (result)

@[simp] theorem processedEntries_append (xs ys : List (Entry φ × QueryResult)) :
    processedEntries (xs ++ ys) = processedEntries xs ++ processedEntries ys := by
  simp [processedEntries]

abbrev done (w : Shard φ) : StreamEntries φ := processedEntries (executions w.log)

theorem processEntries_finish (run : Nat) (batch : StreamEntries φ) (last : Option Nat)
    (w : Shard φ) :
    ∃ log, (processEntries fromHashmap batch last).finish (carryOut result run) w =
      (((batch.takeWhile (goesThrough fromHashmap result)).getLast?.map Entry.id).or last,
        { w with log := log }) ∧
      processedEntries (executions log) =
        done w ++ batch.takeWhile (goesThrough fromHashmap result) := by
  induction batch generalizing last w with
  | nil => exact ⟨w.log, rfl, (List.append_nil _).symm⟩
  | cons e rest ih =>
    rw [processEntries]
    cases decoded : fromHashmap e.fields with
    | error err =>
      have stops : goesThrough fromHashmap result e = false := by
        simp [goesThrough, decoded, Except.isOk, Except.toBool]
      refine ⟨w.log, ?_, ?_⟩ <;> simp [stops, done]
    | ok data =>
      have go : goesThrough fromHashmap result e = (result e).processed := by
        simp [goesThrough, decoded, Except.isOk, Except.toBool]
      let after : Shard φ := { w with log := w.log ++ [.executed run e (result e)] }
      cases processed : (result e).processed with
      | true =>
        obtain ⟨log, ran, all⟩ := ih (some e.id) after
        refine ⟨log, ?_, ?_⟩
        · rw [List.takeWhile_cons, go, processed, if_pos rfl, List.getLast?_cons]
          refine Eq.trans ?_ (ran.trans ?_)
          · cases outcome : result e with
            | ok => simp [executeQuery, Task.call, outcome, after]
            | failed err =>
              cases err <;> simp_all [executeQuery, Task.call, QueryResult.processed, after]
          · cases (List.takeWhile (goesThrough fromHashmap result) rest).getLast? <;> rfl
        · rw [all, List.takeWhile_cons, go, processed, if_pos rfl]
          simp [done, after, executions, processedEntries, processed]
      | false =>
        refine ⟨after.log, ?_, ?_⟩
        · rw [List.takeWhile_cons, go, processed]
          cases outcome : result e with
          | ok => simp [outcome, QueryResult.processed] at processed
          | failed err =>
            cases err <;> simp_all [executeQuery, Task.call, QueryResult.processed, after]
        · rw [List.takeWhile_cons, go, processed]
          simp [done, after, executions, processedEntries, processed]

theorem entries_above {entries front rest : StreamEntries φ} {e : Entry φ}
    (sorted : entries.Pairwise fun a b => a.id < b.id) (split : entries = front ++ e :: rest) :
    (entries.filter fun x => !decide (x.id < e.id)).filter (fun x => ! [e.id].contains x.id) =
      rest := by
  subst split
  obtain ⟨-, tail, across⟩ := List.pairwise_append.mp sorted
  have below : front.filter (fun x => !decide (x.id < e.id)) = [] := by
    refine List.filter_eq_nil_iff.mpr fun x mem => ?_
    simp [across x mem e List.mem_cons_self]
  have above : rest.filter (fun x => !decide (x.id < e.id)) = rest := by
    refine List.filter_eq_self.mpr fun x mem => ?_
    simp [Nat.le_of_lt ((List.pairwise_cons.mp tail).1 x mem)]
  have differ : rest.filter (fun x => ! [e.id].contains x.id) = rest := by
    refine List.filter_eq_self.mpr fun x mem => ?_
    simp [Nat.ne_of_gt ((List.pairwise_cons.mp tail).1 x mem)]
  rw [List.filter_append, below, List.nil_append, List.filter_cons, if_pos (by simp), above,
    List.filter_cons, if_neg (by simp), differ]

theorem trimFromStream_finish (δ : Type) (streamName : String) (run id : Nat) (w : Shard φ) :
    ∃ n log, (trimFromStream streamName id : DrainerTask φ δ _).finish (carryOut result run) w =
        (.ok n, ⟨((w.stream.xtrimMinId id).2.xdel [id]).2, log⟩) ∧
      executions log = executions w.log := by
  refine ⟨_, _, rfl, ?_⟩
  change executions (w.log ++ [.trimmed run id _] ++ [.deleted run id _]) = executions w.log
  rw [executions_append, executions_append]
  exact (List.append_nil _).trans (List.append_nil _)

theorem runAlone_eq (streamName : String) (m run : Nat) (w : Shard φ) :
    ∃ w', runAlone fromHashmap result streamName m run w = (.ok (), w') ∧
      w'.stream.entries = w.stream.entries.drop
        ((w.stream.entries.take m).takeWhile (goesThrough fromHashmap result)).length ∧
      done w' = done w ++ (w.stream.entries.take m).takeWhile (goesThrough fromHashmap result) := by
  simp only [Machine.alone, machine, drainer, readFromStream]
  simp only [Task.bind_eq, Task.pure_eq, Task.call_bind, streamReadEntries, Task.bind_await,
    Task.finish_await, carryOut_read, Stream.xread_first]
  cases read : w.stream.entries.take m with
  | nil => exact ⟨_, rfl, rfl, by simp [done, executions]⟩
  | cons e rest =>
    simp only [readReply, List.isEmpty_cons, if_false, Bool.false_eq_true, Task.bind_done,
      parseStreamEntries, List.lookup_cons_self, Task.finish_bind]
    obtain ⟨log, ran, processed⟩ := processEntries_finish fromHashmap result run
      (e :: rest) none { w with log := w.log ++ [.read run (e :: rest)] }
    rw [ran]
    set front := (e :: rest).takeWhile (goesThrough fromHashmap result) with taken
    have silent : done (⟨w.stream, w.log ++ [.read run (e :: rest)]⟩ : Shard φ) = done w := by
      simp [done, executions]
    simp only [silent] at processed
    cases last : front.getLast? with
    | none =>
      have nothing := List.getLast?_eq_none_iff.mp last
      exact ⟨_, rfl, by simp [nothing], processed⟩
    | some l =>
      obtain ⟨before, split⟩ := List.getLast?_eq_some_iff.mp last
      obtain ⟨n, trimmedLog, trimmed, same⟩ := trimFromStream_finish result δ streamName
        run l.id ⟨w.stream, log⟩
      have whole : w.stream.entries = before ++ l :: w.stream.entries.drop front.length := by
        have isPrefix : front <+: w.stream.entries :=
          (List.takeWhile_prefix _).trans (read ▸ List.take_prefix m _)
        obtain ⟨others, rest⟩ := isPrefix
        rw [← rest, List.drop_left, split, List.append_assoc]
        rfl
      have left := entries_above w.stream.sorted whole
      simp only [Option.map_some, Option.some_or, Task.finish_bind, trimmed]
      split
      · exact ⟨_, rfl, left, (congrArg processedEntries same).trans processed⟩
      · refine ⟨_, rfl, left, ?_⟩
        change processedEntries (executions (trimmedLog ++ [.assertionFailed run _ _])) = _
        rw [executions_append, same]
        exact (congrArg processedEntries (List.append_nil _)).trans processed

theorem takeWhile_drop {α : Type} (p : α → Bool) {n : Nat} {l : List α}
    (few : n ≤ (l.takeWhile p).length) : (l.drop n).takeWhile p = (l.takeWhile p).drop n := by
  induction l generalizing n with
  | nil => simp
  | cons a l ih =>
    cases n with
    | zero => simp
    | succ n =>
      by_cases keep : p a = true
      · simp only [List.takeWhile_cons_of_pos keep, List.length_cons] at few
        simp [keep, ih (Nat.le_of_succ_le_succ few)]
      · simp [List.takeWhile_cons_of_neg keep] at few

def through (fromHashmap : φ → Except π δ) (result : Entry φ → QueryResult) (w : Shard φ) :
    StreamEntries φ :=
  w.stream.entries.takeWhile (goesThrough fromHashmap result)

/-- Any number of runs: none fails, the entries that go through are processed in order, each
once, and leave the stream, `max_read_count` of them in each run. -/
theorem rounds_eq (streamName : String) (m k run : Nat) (w : Shard φ) :
    let r := rounds fromHashmap result streamName m k run w
    r.1 = List.replicate k (.ok ()) ∧
      r.2.stream.entries =
        w.stream.entries.drop (min (k * m) (through fromHashmap result w).length) ∧
      done r.2 = done w ++ (through fromHashmap result w).take (k * m) := by
  induction k generalizing run w with
  | zero => simp [rounds, Machine.inTurn]
  | succ k ih =>
    obtain ⟨u, ran, entries, processed⟩ := runAlone_eq fromHashmap result
      streamName m run w
    obtain ⟨restReturned, restEntries, restProcessed⟩ := ih (run + 1) u
    have taken := (List.take_takeWhile (i := m) (l := w.stream.entries)
      (p := goesThrough fromHashmap result)).symm
    rw [taken, List.length_take] at entries
    rw [taken] at processed
    have left : through fromHashmap result u = (through fromHashmap result w).drop m := by
      have := takeWhile_drop (goesThrough fromHashmap result) (l := w.stream.entries)
        (Nat.min_le_right m _)
      rw [through, entries, this]
      rcases Nat.le_total m (through fromHashmap result w).length with few | many
      · rw [through] at few ⊢
        rw [Nat.min_eq_left few]
      · rw [through] at many ⊢
        rw [Nat.min_eq_right many, List.drop_length, List.drop_eq_nil_of_le many]
    have both : rounds fromHashmap result streamName m (k + 1) run w =
        (.ok () :: (rounds fromHashmap result streamName m k (run + 1) u).1,
          (rounds fromHashmap result streamName m k (run + 1) u).2) := by
      unfold runAlone at ran
      rw [rounds, List.replicate_succ, Machine.inTurn, ran]
      rfl
    simp only [both]
    rw [restReturned, restEntries, restProcessed, left, entries, processed, List.drop_drop,
      List.length_drop]
    refine ⟨rfl, ?_, ?_⟩
    · congr 1
      rw [Nat.succ_mul]
      simp only [through]
      omega
    · rw [List.append_assoc, Nat.succ_mul, Nat.add_comm (k * m) m, List.take_add]
      rfl

variable {c : Config (Command φ δ) (Reply φ δ) (Shard φ) Nat (Except DrainerError Unit)}

/-- When Redis answers and nobody appends, `k` runs process the first `k * max_read_count`
entries in order, each once, and take just these off the stream; an entry that does not decode,
or whose query fails for another reason than a duplicate, keeps back everything behind it. A count
of 0 would be no limit to Redis. -/
theorem drainer_catches_up (streamName : String) (m k run : Nat) (_limited : 0 < m)
    (idle : ∀ q, run ≤ q → c.procs q = .idle) :
    ∃ d, Machine.Reach (machine fromHashmap streamName) Machine.anyStep c d ∧
      d.world = (rounds fromHashmap result streamName m k run c.world).2 ∧
      (∀ i < k, d.procs (run + i) = .live m (.done (.ok ()))) ∧
      d.world.stream.entries =
        c.world.stream.entries.drop (min (k * m) (through fromHashmap result c.world).length) ∧
      done d.world = done c.world ++ (through fromHashmap result c.world).take (k * m) := by
  obtain ⟨d, reached, world, -, returned⟩ := Machine.reach_inTurn
    (M := machine fromHashmap streamName) (answering result) (List.replicate k m) idle
  obtain ⟨results, entries, processed⟩ := rounds_eq fromHashmap result streamName m k run c.world
  rw [rounds] at results entries processed
  refine ⟨d, reached, world, fun i lt => returned i m (.ok ()) ?_ ?_, world ▸ entries,
    world ▸ processed⟩
  · rw [List.getElem?_replicate, if_pos lt]
  · rw [results, List.getElem?_replicate, if_pos lt]

/-- Two runs of at most two entries each take three of four off the stream: the fourth one does
not decode. -/
theorem drainer_catches_up_twice :
    ∃ c d : Config (Command Nat Nat) (Reply Nat Nat) (Shard Nat) Nat (Except DrainerError Unit),
      c.world.stream.entries = [⟨1, 7⟩, ⟨2, 8⟩, ⟨3, 7⟩, ⟨4, 0⟩] ∧
      Machine.Reach (machine (fun n => if n = 0 then .error () else .ok n) "s") Machine.anyStep c d ∧
      d.world.stream.entries = [⟨4, 0⟩] ∧
      done d.world = [⟨1, 7⟩, ⟨2, 8⟩, ⟨3, 7⟩] := by
  let fill (w : Shard Nat) (n : Nat) : Shard Nat := ⟨w.stream.xadd 0 n, w.log⟩
  obtain ⟨d, reached, -, -, entries, processed⟩ := drainer_catches_up
    (c := .initial ([7, 8, 7, 0].foldl fill Shard.empty))
    (fun n => if n = 0 then .error () else .ok n : Nat → Except Unit Nat) (fun _ => .ok) "s" 2 2
    0 (by decide) fun _ _ => rfl
  exact ⟨_, d, rfl, reached, entries.trans rfl, processed.trans rfl⟩

end Mercado.Drainer
