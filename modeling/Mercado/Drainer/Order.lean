import Mercado.Drainer.Run

/-! One drainer at a time applies the entries in the order in which they were
appended, and a run that ends well removes what it has applied. -/
namespace Mercado.Drainer
open Async Redis

variable {φ δ π : Type}

/- The stream, and what has been applied, read off the log. -/

def Event.apply : Event φ → StreamEntries φ → StreamEntries φ
  | .appended entry, s => s ++ [entry]
  | .trimmed _ minId _, s => s.filter fun e => !decide (e.id < minId)
  | .deleted _ id _, s => s.filter fun e => !([id].contains e.id)
  | _, s => s

def streamAfter (log : List (Event φ)) : StreamEntries φ :=
  log.foldl (fun s ev => ev.apply s) []

def Event.succeed : Event φ → StreamEntries φ → StreamEntries φ
  | .executed _ entry result, seen =>
    if result.processed ∧ entry.id ∉ seen.map Entry.id then seen ++ [entry] else seen
  | _, seen => seen

def firstSuccesses (log : List (Event φ)) : StreamEntries φ :=
  log.foldl (fun seen ev => ev.succeed seen) []

def batches (log : List (Event φ)) : List (StreamEntries φ) :=
  log.filterMap fun
    | .read _ batch => some batch
    | _ => none

def removals (log : List (Event φ)) : StreamEntries φ :=
  log.flatMap fun
    | .trimmed _ _ removed | .deleted _ _ removed => removed
    | _ => []

def reports (log : List (Event φ)) : List (Nat × Nat) :=
  log.filterMap fun
    | .assertionFailed _ readEntries trimmedEntries => some (readEntries, trimmedEntries)
    | _ => none

@[simp] theorem streamAfter_snoc (log : List (Event φ)) (ev : Event φ) :
    streamAfter (log ++ [ev]) = ev.apply (streamAfter log) :=
  List.foldl_concat ..

@[simp] theorem firstSuccesses_snoc (log : List (Event φ)) (ev : Event φ) :
    firstSuccesses (log ++ [ev]) = ev.succeed (firstSuccesses log) :=
  List.foldl_concat ..

/-- What may happen after a history. A run reads the head of the stream, once. It
executes an entry when the entries it has executed before succeeded and are, with
this one behind them, the head of the stream. What it removes is a head too. -/
def Event.Fits (fromHashmap : φ → Except π δ) (before : List (Event φ)) : Event φ → Prop
  | .read run batch => eventsBy run before = [] ∧ batch <+: streamAfter before
  | .executed run e _ =>
    (∃ data, fromHashmap e.fields = .ok data) ∧
      (∀ x ∈ executions (eventsBy run before), x.2.processed = true) ∧
      (executions (eventsBy run before)).map Prod.fst ++ [e] <+: streamAfter before
  | .trimmed run id removed =>
    removed ++ (Event.trimmed run id removed).apply (streamAfter before) = streamAfter before
  | .deleted run id removed =>
    removed ++ (Event.deleted run id removed).apply (streamAfter before) = streamAfter before
  | _ => True

structure InOrder (fromHashmap : φ → Except π δ) (w : Shard φ) : Prop where
  applied : firstSuccesses w.log <+: appendedEntries w.log
  stream : w.stream.entries = streamAfter w.log
  fits : ∀ before ev after, w.log = before ++ ev :: after → ev.Fits fromHashmap before

/-- What a run that has returned has done. A failed assertion shows the number that
`trim_from_stream` returned; no failed assertion shows that it returned the number
of entries read. -/
def Completed (fromHashmap : φ → Except π δ) (run : Nat) (result : Except DrainerError Unit)
    (log : List (Event φ)) : Prop :=
  (eventsBy run log = [] ∧ result ≠ .ok ()) ∨
  ∃ batch, batches (eventsBy run log) = [batch] ∧
    Stops fromHashmap batch (executions (eventsBy run log)) ∧
    (result = .ok () →
      removals (eventsBy run log) = processedEntries (executions (eventsBy run log)) ∧
      reports (eventsBy run log) =
        if removals (eventsBy run log) = [] ∨ (removals (eventsBy run log)).length = batch.length
        then [] else [(batch.length, (removals (eventsBy run log)).length)])

/- Prefixes of a list without repeated ids. -/

theorem next_first {all first done : StreamEntries φ} {e : Entry φ}
    (distinct : all.Pairwise fun a b => a.id < b.id) (isFirst : first <+: all)
    (before : done <+: first) (next : done ++ [e] <+: all) :
    if e.id ∈ first.map Entry.id then done ++ [e] <+: first else first = done := by
  have longer : done.length < first.length → done ++ [e] <+: first := fun lt =>
    List.prefix_of_prefix_length_le next isFirst (by simpa using Nat.succ_le_of_lt lt)
  by_cases lt : done.length < first.length
  · have inFirst : e ∈ first := (longer lt).subset (by simp)
    rw [if_pos (List.mem_map_of_mem inFirst)]
    exact longer lt
  · have same : done = first := before.eq_of_length_le (by omega)
    subst same
    obtain ⟨rest, split⟩ := next
    have fresh : e.id ∉ done.map Entry.id := by
      intro mem
      obtain ⟨b, hb, same⟩ := List.mem_map.mp mem
      rw [← split, List.append_assoc] at distinct
      have := (List.pairwise_append.mp distinct).2.2 b hb e (by simp)
      omega
    rw [if_neg fresh]

theorem trim_head {before tail : StreamEntries φ} {b : Entry φ}
    (sorted : (before ++ b :: tail).Pairwise fun x y => x.id < y.id) :
    (before ++ b :: tail).filter (fun e => decide (e.id < b.id)) = before ∧
      (before ++ b :: tail).filter (fun e => !decide (e.id < b.id)) = b :: tail := by
  obtain ⟨_, ofTail, across⟩ := List.pairwise_append.mp sorted
  have below : ∀ e ∈ before, e.id < b.id := fun e he => across e he b (by simp)
  have above : ∀ e ∈ b :: tail, ¬ e.id < b.id := by
    intro e he
    rcases List.mem_cons.mp he with rfl | he
    · exact Nat.lt_irrefl _
    · have := (List.pairwise_cons.mp ofTail).1 e he
      omega
  constructor
  · rw [List.filter_append, List.filter_eq_self.mpr (by simpa using below),
      List.filter_eq_nil_iff.mpr (by simpa using above), List.append_nil]
  · rw [List.filter_append, List.filter_eq_nil_iff.mpr (by simpa using below),
      List.filter_eq_self.mpr (by simpa using above), List.nil_append]

theorem delete_head {tail : StreamEntries φ} {b : Entry φ}
    (sorted : (b :: tail).Pairwise fun x y => x.id < y.id) :
    (b :: tail).filter (fun e => [b.id].contains e.id) = [b] ∧
      (b :: tail).filter (fun e => !([b.id].contains e.id)) = tail := by
  have above : ∀ e ∈ tail, e.id ≠ b.id := fun e he =>
    Nat.ne_of_gt ((List.pairwise_cons.mp sorted).1 e he)
  constructor
  · rw [List.filter_cons_of_pos (by simp), List.filter_eq_nil_iff.mpr (by simpa using above)]
  · rw [List.filter_cons_of_neg (by simp), List.filter_eq_self.mpr (by simpa using above)]

/-- The first entries of the stream that are not needed any more, or are not any
more once `done` has been removed, have been applied. -/
def AppliedUpTo (done : StreamEntries φ) (w : Shard φ) : Prop :=
  ∃ gone, appendedEntries w.log = gone ++ w.stream.entries ∧ gone ++ done <+: firstSuccesses w.log

structure Ordered (fromHashmap : φ → Except π δ) (w : Shard φ) : Prop where
  stream : w.stream.entries = streamAfter w.log
  gone : AppliedUpTo [] w
  first : firstSuccesses w.log <+: appendedEntries w.log
  distinct : (appendedEntries w.log).Pairwise fun a b => a.id < b.id
  issued : ∀ e ∈ appendedEntries w.log, e.id ≤ w.stream.lastId
  fits : ∀ before ev after, w.log = before ++ ev :: after → ev.Fits fromHashmap before

theorem AppliedUpTo.nothing {done : StreamEntries φ} {w : Shard φ} (h : AppliedUpTo done w) :
    AppliedUpTo [] w := by
  obtain ⟨gone, split, applied⟩ := h
  refine ⟨gone, split, ?_⟩
  rw [List.append_nil]
  exact (List.prefix_append _ _).trans applied

variable {fromHashmap : φ → Except π δ} {streamName : String}

theorem Ordered.push {w w' : Shard φ} {run : Nat} {ev : Event φ} (h : Ordered fromHashmap w)
    (log : w'.log = w.log ++ [ev]) (own : ev.run = some run)
    (entries : w'.stream.entries = ev.apply w.stream.entries)
    (lastId : w'.stream.lastId = w.stream.lastId) (fits : ev.Fits fromHashmap w.log)
    (gone : AppliedUpTo [] w') (first : ev.succeed (firstSuccesses w.log) <+: appendedEntries w.log) :
    Ordered fromHashmap w' := by
  have appended : appendedEntries w'.log = appendedEntries w.log := by
    rw [log, appendedEntries_append]
    cases ev with
    | appended => cases own
    | read | executed | trimmed | deleted | assertionFailed => exact List.append_nil _
  refine ⟨?_, gone, ?_, ?_, ?_, ?_⟩
  · rw [entries, log, streamAfter_snoc, h.stream]
  · rw [appended, log, firstSuccesses_snoc]
    exact first
  · rw [appended]
    exact h.distinct
  · intro e he
    rw [appended] at he
    rw [lastId]
    exact h.issued e he
  · intro before x after split
    rw [log] at split
    rcases snoc_split split with ⟨rfl, rfl⟩ | ⟨after', split⟩
    · exact fits
    · exact h.fits before x after' split

/- What the clients do in the meantime. -/

def Appends (w w' : Shard φ) : Prop :=
  ∃ more, w'.stream.entries = w.stream.entries ++ more ∧ w'.log = w.log ++ more.map .appended

theorem Appends.trans {u v w : Shard φ} (h : Appends u v) (g : Appends v w) : Appends u w := by
  obtain ⟨more, entries, log⟩ := h
  obtain ⟨more', entries', log'⟩ := g
  exact ⟨more ++ more', by rw [entries', entries, List.append_assoc],
    by rw [log', log, List.map_append, List.append_assoc]⟩

theorem firstSuccesses_appends (log : List (Event φ)) (more : StreamEntries φ) :
    firstSuccesses (log ++ more.map .appended) = firstSuccesses log := by
  induction more generalizing log with
  | nil => simp
  | cons e more ih =>
    rw [List.map_cons, List.append_cons, ih, firstSuccesses_snoc]
    rfl

theorem appendedEntries_appends (log : List (Event φ)) (more : StreamEntries φ) :
    appendedEntries (log ++ more.map .appended) = appendedEntries log ++ more := by
  rw [appendedEntries_append]
  congr 1
  induction more with
  | nil => rfl
  | cons e more ih => exact congrArg (e :: ·) ih

theorem eventsBy_appends (run : Nat) (log : List (Event φ)) (more : StreamEntries φ) :
    eventsBy run (log ++ more.map .appended) = eventsBy run log := by
  have foreign : ∀ ev ∈ more.map Event.appended, ev.run ≠ some run := by
    intro ev hev
    obtain ⟨e, _, rfl⟩ := List.mem_map.mp hev
    intro own
    cases own
  rw [eventsBy_append, eventsBy_foreign foreign, List.append_nil]

theorem append_ordered {a : Append φ} {w w' : Shard φ} (h : append a w = some w')
    (ordered : Ordered fromHashmap w) : Appends w w' ∧ Ordered fromHashmap w' := by
  cases Option.some.inj h
  have above : ∀ e ∈ appendedEntries w.log, e.id < (w.stream.added a.gap a.fields).id := by
    intro e he
    have := ordered.issued e he
    simp only [Stream.added]
    omega
  have appended := appendedEntries_appends w.log [w.stream.added a.gap a.fields]
  have first := firstSuccesses_appends w.log [w.stream.added a.gap a.fields]
  simp only [List.map_cons, List.map_nil] at appended first
  refine ⟨⟨[w.stream.added a.gap a.fields], rfl, rfl⟩, ?_, ?_, ?_, ?_, ?_, ?_⟩
  · simp only [Stream.xadd_entries, streamAfter_snoc, ordered.stream]
    rfl
  · obtain ⟨gone, split, applied⟩ := ordered.gone
    refine ⟨gone, ?_, ?_⟩
    · rw [appended, split, List.append_assoc]
      rfl
    · rw [first]
      exact applied
  · rw [first, appended]
    exact ordered.first.trans (List.prefix_append _ _)
  · rw [appended]
    refine List.pairwise_append.mpr ⟨ordered.distinct, List.pairwise_singleton _ _, ?_⟩
    intro e he b hb
    cases List.mem_singleton.mp hb
    exact above e he
  · intro e he
    rw [appended] at he
    rcases List.mem_append.mp he with he | he
    · exact Nat.le_trans (Nat.le_of_lt (above e he)) (Nat.le_of_eq rfl)
    · cases List.mem_singleton.mp he
      exact Nat.le_of_eq rfl
  · intro before x after split
    rcases snoc_split split with ⟨rfl, rfl⟩ | ⟨after', split⟩
    · trivial
    · exact ordered.fits before x after' split

def undisturbed (fromHashmap : φ → Except π δ) (run : Nat) :
    Setting (Command φ δ) (Reply φ δ) (Shard φ) Choice where
  exec := exec run
  inv := Ordered fromHashmap
  rely := Appends
  guar := fun _ _ _ => True
  allow := fun _ _ _ => True

/-- The run has this history, knows the head of the stream, and the entries removed
so far are applied together with `done`. -/
structure Knows (run : Nat) (history : List (Event φ)) (head done : StreamEntries φ)
    (w : Shard φ) : Prop where
  own : eventsBy run w.log = history
  head : head <+: w.stream.entries
  done : AppliedUpTo done w

theorem Knows.stable {run : Nat} {history : List (Event φ)} {head done : StreamEntries φ} :
    (undisturbed fromHashmap run).Stable (Knows run history head done) := by
  rintro w w' ⟨more, entries, log⟩ _ h
  obtain ⟨gone, split, applied⟩ := h.done
  refine ⟨?_, ?_, gone, ?_, ?_⟩
  · rw [log, eventsBy_appends]
    exact h.own
  · rw [entries]
    exact h.head.trans (List.prefix_append _ _)
  · rw [log, appendedEntries_appends, split, entries, List.append_assoc]
  · rw [log, firstSuccesses_appends]
    exact applied

def executed (run : Nat) (xs : List (Entry φ × QueryResult)) : List (Event φ) :=
  xs.map fun x => .executed run x.1 x.2

theorem executed_snoc (run : Nat) (xs : List (Entry φ × QueryResult)) (e : Entry φ)
    (r : QueryResult) : executed run (xs ++ [(e, r)]) = executed run xs ++ [.executed run e r] :=
  List.map_append

@[simp] theorem executions_executed (run : Nat) (xs : List (Entry φ × QueryResult)) :
    executions (executed run xs) = xs := by
  induction xs with
  | nil => rfl
  | cons x xs ih => exact congrArg (x :: ·) ih

def history (run : Nat) (batch : StreamEntries φ) (xs : List (Entry φ × QueryResult))
    (more : List (Event φ)) : List (Event φ) :=
  .read run batch :: (executed run xs ++ more)

theorem executions_history {run : Nat} {batch : StreamEntries φ}
    {xs : List (Entry φ × QueryResult)} {more : List (Event φ)} (none : executions more = []) :
    executions (history run batch xs more) = xs := by
  have tail := executions_append (executed run xs) more
  rw [none, executions_executed, List.append_nil] at tail
  exact tail

theorem batches_history {run : Nat} {batch : StreamEntries φ}
    {xs : List (Entry φ × QueryResult)} {more : List (Event φ)} (none : batches more = []) :
    batches (history run batch xs more) = [batch] := by
  have tail : batches (executed run xs ++ more) = [] := by
    unfold batches at none ⊢
    rw [List.filterMap_append, none, List.append_nil, List.filterMap_eq_nil_iff]
    intro ev hev
    obtain ⟨x, _, rfl⟩ := List.mem_map.mp hev
    rfl
  exact congrArg (batch :: ·) tail

theorem removals_history (run : Nat) (batch : StreamEntries φ)
    (xs : List (Entry φ × QueryResult)) (more : List (Event φ)) :
    removals (history run batch xs more) = removals more := by
  induction xs with
  | nil => rfl
  | cons x xs ih => exact ih

theorem reports_history (run : Nat) (batch : StreamEntries φ)
    (xs : List (Entry φ × QueryResult)) (more : List (Event φ)) :
    reports (history run batch xs more) = reports more := by
  induction xs with
  | nil => rfl
  | cons x xs ih => exact ih

theorem completed_failed {run : Nat} {batch : StreamEntries φ}
    {xs : List (Entry φ × QueryResult)} {more log : List (Event φ)} {e : DrainerError}
    (stops : Stops fromHashmap batch xs) (own : eventsBy run log = history run batch xs more)
    (noExecution : executions more = []) (noRead : batches more = []) :
    Completed fromHashmap run (.error e) log := by
  refine .inr ⟨batch, ?_, ?_, fun ok => nomatch ok⟩
  · rw [own, batches_history noRead]
  · rw [own, executions_history noExecution]
    exact stops

theorem completed_ok {run : Nat} {batch : StreamEntries φ}
    {xs : List (Entry φ × QueryResult)} {more log : List (Event φ)}
    (stops : Stops fromHashmap batch xs) (own : eventsBy run log = history run batch xs more)
    (noExecution : executions more = []) (noRead : batches more = [])
    (removed : removals more = processedEntries xs)
    (reported : reports more =
      if processedEntries xs = [] ∨ (processedEntries xs).length = batch.length then []
      else [(batch.length, (processedEntries xs).length)]) :
    Completed fromHashmap run (.ok ()) log := by
  refine .inr ⟨batch, ?_, ?_, fun _ => ?_⟩
  · rw [own, batches_history noRead]
  · rw [own, executions_history noExecution]
    exact stops
  · rw [own, removals_history, reports_history, executions_history noExecution, removed]
    exact ⟨rfl, reported⟩

theorem history_snoc (run : Nat) (batch : StreamEntries φ) (xs : List (Entry φ × QueryResult))
    (more : List (Event φ)) (ev : Event φ) :
    history run batch xs more ++ [ev] = history run batch xs (more ++ [ev]) := by
  simp only [history, List.cons_append, List.append_assoc]

/- One lemma for each command of a run. -/

theorem read_ordered {run : Nat} {w : Shard φ} {batch : StreamEntries φ}
    (silent : eventsBy run w.log = []) (head : batch <+: w.stream.entries)
    (ordered : Ordered fromHashmap w) :
    Ordered fromHashmap { w with log := w.log ++ [.read run batch] } ∧
      Knows run (history run batch [] []) batch [] { w with log := w.log ++ [.read run batch] } := by
  have applied : AppliedUpTo [] { w with log := w.log ++ [Event.read run batch] } := by
    obtain ⟨gone, split, applied⟩ := ordered.gone
    refine ⟨gone, ?_, ?_⟩
    · rw [appendedEntries_append, split]
      exact List.append_nil _
    · rw [firstSuccesses_snoc]
      exact applied
  refine ⟨ordered.push rfl rfl rfl rfl ⟨silent, ordered.stream ▸ head⟩ applied ordered.first,
    ?_, head, applied⟩
  rw [eventsBy_append, silent, eventsBy_own rfl]
  rfl

theorem execute_ordered {run : Nat} {w : Shard φ} {batch rest : StreamEntries φ}
    {xs : List (Entry φ × QueryResult)} {e : Entry φ} {data : δ} (r : QueryResult)
    (h : Knows run (history run batch xs []) batch (processedEntries xs) w)
    (split : batch = xs.map Prod.fst ++ e :: rest) (gone : ∀ x ∈ xs, x.2.processed = true)
    (parsed : fromHashmap e.fields = .ok data) (ordered : Ordered fromHashmap w) :
    Ordered fromHashmap { w with log := w.log ++ [.executed run e r] } ∧
      Knows run (history run batch (xs ++ [(e, r)]) []) batch (processedEntries (xs ++ [(e, r)]))
        { w with log := w.log ++ [.executed run e r] } := by
  have processed := processedEntries_all gone
  have next : xs.map Prod.fst ++ [e] <+: w.stream.entries := by
    refine List.IsPrefix.trans ?_ h.head
    rw [split, List.append_cons (xs.map Prod.fst) e rest]
    exact List.prefix_append _ _
  obtain ⟨removed, all, applied⟩ := h.done
  rw [processed] at applied
  have nextOfAll : (removed ++ xs.map Prod.fst) ++ [e] <+: appendedEntries w.log := by
    rw [all, List.append_assoc]
    exact (List.prefix_append_right_inj removed).mpr next
  have first := next_first ordered.distinct ordered.first applied nextOfAll
  have done : processedEntries (xs ++ [(e, r)]) =
      xs.map Prod.fst ++ if r.processed then [e] else [] := by
    unfold processedEntries at processed ⊢
    rw [List.filter_append, List.map_append, processed]
    cases go : r.processed <;> simp [go]
  -- the entry has been applied before, or it is the first one that has not
  have both : Event.succeed (.executed run e r) (firstSuccesses w.log) <+: appendedEntries w.log ∧
      removed ++ processedEntries (xs ++ [(e, r)]) <+:
        Event.succeed (.executed run e r) (firstSuccesses w.log) := by
    rw [done]
    cases go : r.processed with
    | false =>
      simp only [Event.succeed, go, Bool.false_eq_true, false_and, if_false, List.append_nil]
      exact ⟨ordered.first, applied⟩
    | true =>
      simp only [Event.succeed, go, true_and, if_true]
      rw [← List.append_assoc]
      by_cases seen : e.id ∈ (firstSuccesses w.log).map Entry.id
      · rw [if_pos seen] at first
        rw [if_neg (not_not_intro seen)]
        exact ⟨ordered.first, first⟩
      · rw [if_neg seen] at first
        rw [if_pos seen, first]
        exact ⟨nextOfAll, List.prefix_rfl⟩
  have kept : AppliedUpTo (processedEntries (xs ++ [(e, r)]))
      { w with log := w.log ++ [Event.executed run e r] } := by
    refine ⟨removed, ?_, ?_⟩
    · rw [appendedEntries_append, all]
      exact List.append_nil _
    · rw [firstSuccesses_snoc]
      exact both.2
  have own : executions (eventsBy run w.log) = xs := by
    rw [h.own, executions_history rfl]
  refine ⟨ordered.push rfl rfl rfl rfl ⟨⟨data, parsed⟩, ?_, ?_⟩ kept.nothing both.1, ?_, h.head, kept⟩
  · rw [own]
    exact gone
  · rw [own, ← ordered.stream]
    exact next
  · rw [eventsBy_append, h.own, eventsBy_own rfl]
    simp only [history, executed_snoc, List.append_nil, List.cons_append]

theorem AppliedUpTo.removed {front done : StreamEntries φ} {w w' : Shard φ} {ev : Event φ}
    (h : AppliedUpTo (front ++ done) w) (split : w.stream.entries = front ++ w'.stream.entries)
    (log : w'.log = w.log ++ [ev]) (appended : appendedEntries [ev] = [])
    (succeeded : ev.succeed (firstSuccesses w.log) = firstSuccesses w.log) :
    AppliedUpTo done w' := by
  obtain ⟨gone, all, applied⟩ := h
  refine ⟨gone ++ front, ?_, ?_⟩
  · rw [log, appendedEntries_append, all, appended, split, List.append_nil, List.append_assoc]
  · rw [log, firstSuccesses_snoc, succeeded, List.append_assoc]
    exact applied

theorem trim_ordered {run : Nat} {w : Shard φ} {past : List (Event φ)}
    {batch before : StreamEntries φ} {b : Entry φ} (h : Knows run past batch (before ++ [b]) w)
    (head : before ++ [b] <+: batch) (ordered : Ordered fromHashmap w) :
    (w.stream.xtrimMinId b.id).1 = before.length ∧
    Ordered fromHashmap ⟨(w.stream.xtrimMinId b.id).2, w.log ++
      [.trimmed run b.id (w.stream.entries.filter fun e => e.id < b.id)]⟩ ∧
    Knows run (past ++ [.trimmed run b.id before]) [b] [b] ⟨(w.stream.xtrimMinId b.id).2, w.log ++
      [.trimmed run b.id (w.stream.entries.filter fun e => e.id < b.id)]⟩ := by
  obtain ⟨tail, split⟩ := head.trans h.head
  rw [List.append_assoc, List.singleton_append] at split
  obtain ⟨below, rest⟩ := trim_head (split ▸ w.stream.sorted)
  rw [split] at below rest
  have kept : AppliedUpTo [b] ⟨(w.stream.xtrimMinId b.id).2, w.log ++
      [Event.trimmed run b.id (w.stream.entries.filter fun e => e.id < b.id)]⟩ := by
    apply h.done.removed _ rfl rfl rfl
    simp only [Stream.xtrimMinId, Stream.keep_entries, rest]
    exact split.symm
  refine ⟨congrArg List.length below,
    ordered.push rfl rfl rfl rfl ?_ kept.nothing ordered.first, ?_, ?_, kept⟩
  · simp only [Event.Fits, Event.apply, ← ordered.stream, below, rest]
    exact split
  · rw [eventsBy_append, h.own, eventsBy_own rfl, below]
  · simp only [Stream.xtrimMinId, Stream.keep_entries, rest]
    exact ⟨tail, rfl⟩

theorem delete_ordered {run : Nat} {w : Shard φ} {past : List (Event φ)} {b : Entry φ}
    (h : Knows run past [b] [b] w) (ordered : Ordered fromHashmap w) :
    Ordered fromHashmap ⟨(w.stream.xdel [b.id]).2, w.log ++
      [.deleted run b.id (w.stream.entries.filter fun e => [b.id].contains e.id)]⟩ ∧
    eventsBy run (w.log ++ [.deleted run b.id (w.stream.entries.filter fun e =>
      [b.id].contains e.id)]) = past ++ [.deleted run b.id [b]] := by
  obtain ⟨tail, split⟩ := h.head
  rw [List.singleton_append] at split
  obtain ⟨at', rest⟩ := delete_head (split ▸ w.stream.sorted)
  rw [split] at at' rest
  have kept : AppliedUpTo [] ⟨(w.stream.xdel [b.id]).2, w.log ++
      [Event.deleted run b.id (w.stream.entries.filter fun e => [b.id].contains e.id)]⟩ := by
    have done : AppliedUpTo ([b] ++ []) w := h.done
    apply done.removed _ rfl rfl rfl
    simp only [Stream.xdel, Stream.keep_entries, rest]
    exact split.symm
  refine ⟨ordered.push rfl rfl rfl rfl ?_ kept ordered.first, ?_⟩
  · simp only [Event.Fits, Event.apply, ← ordered.stream, at', rest]
    exact split
  · rw [eventsBy_append, h.own, eventsBy_own rfl, at']

theorem report_ordered {run : Nat} {w : Shard φ} (n m : Nat) (ordered : Ordered fromHashmap w) :
    Ordered fromHashmap { w with log := w.log ++ [.assertionFailed run n m] } := by
  obtain ⟨gone, split, applied⟩ := ordered.gone
  refine ordered.push rfl rfl rfl rfl trivial ⟨gone, ?_, ?_⟩ ordered.first
  · rw [appendedEntries_append, split]
    exact List.append_nil _
  · rw [firstSuccesses_snoc]
    exact applied

section Undisturbed

variable {run maxReadCount n : Nat} {streamName : String} {batch : StreamEntries φ}
  {xs : List (Entry φ × QueryResult)}

def TrimmedTo (run : Nat) (batch : StreamEntries φ) (xs : List (Entry φ × QueryResult)) (n : Nat)
    (w : Shard φ) : Prop :=
  ∃ before b, processedEntries xs = before ++ [b] ∧ n = before.length ∧
    Knows run (history run batch xs [.trimmed run b.id before]) [b] [b] w

def DeletedTo (run : Nat) (batch : StreamEntries φ) (xs : List (Entry φ × QueryResult)) (n : Nat)
    (w : Shard φ) : Prop :=
  ∃ before b, processedEntries xs = before ++ [b] ∧ n = before.length + 1 ∧
    eventsBy run w.log = history run batch xs [.trimmed run b.id before, .deleted run b.id [b]]

theorem trimmedTo_stable : (undisturbed fromHashmap run).Stable (TrimmedTo run batch xs n) := by
  rintro w w' moved ordered ⟨before, b, split, count, h⟩
  exact ⟨before, b, split, count, h.stable w w' moved ordered⟩

theorem deletedTo_stable : (undisturbed fromHashmap run).Stable (DeletedTo run batch xs n) := by
  rintro w w' ⟨more, _, log⟩ _ ⟨before, b, split, count, own⟩
  refine ⟨before, b, split, count, ?_⟩
  rw [log, eventsBy_appends]
  exact own

theorem read_step : (undisturbed fromHashmap run).Step (fun w => eventsBy run w.log = [])
    (.streamReadEntries streamName 0 maxReadCount) fun reply w =>
      (∃ batch, reply = .ok [(streamName, batch)] ∧
        Knows run (history run batch [] []) batch (processedEntries []) w) ∨
        ∃ e, reply = .error e ∧ Completed fromHashmap run (readFailed e) w.log := by
  intro w o ordered _ silent
  cases answer : o.redis with
  | answered =>
    have head : w.stream.xread 0 maxReadCount <+: w.stream.entries := by
      rw [Stream.xread_first]
      exact List.take_prefix _ _
    obtain ⟨ordered', holds⟩ := read_ordered silent head ordered
    simp only [undisturbed, exec, readReply, answer]
    refine ⟨trivial, ordered', ?_⟩
    by_cases empty : (w.stream.xread 0 maxReadCount).isEmpty
    · refine .inr ⟨.streamEmptyOrNotAvailable, if_pos empty, ?_⟩
      rw [List.isEmpty_iff.mp empty] at holds ⊢
      exact completed_ok .finished holds.own rfl rfl rfl (by simp [reports, processedEntries])
    · exact .inl ⟨w.stream.xread 0 maxReadCount, if_neg empty, holds⟩
  | lost | unanswered =>
    simp only [undisturbed, exec, answer]
    exact ⟨trivial, ordered, .inr ⟨.streamReadFailed, rfl, .inl ⟨silent, by rintro ⟨⟩⟩⟩⟩

theorem trim_step {id : Nat} (stops : Stops fromHashmap batch xs)
    (last : lastProcessed none xs = some id) : (undisturbed fromHashmap run).Step
      (Knows run (history run batch xs []) batch (processedEntries xs))
      (.streamTrimEntries streamName id) fun reply w =>
        (∃ n, reply = .ok n ∧ TrimmedTo run batch xs n w) ∨
          ∃ e, reply = .error e ∧ Completed fromHashmap run (.error (.redisError e)) w.log := by
  intro w o ordered _ h
  obtain ⟨before, b, split, rfl⟩ := lastProcessed_some last
  rw [split] at h
  obtain ⟨count, ordered', holds⟩ := trim_ordered h (split ▸ stops.processed_prefix) ordered
  rw [history_snoc] at holds
  simp only [undisturbed, exec]
  rcases Delivery.through_cases o.redis RedisError.streamTrimFailed w
    ((w.stream.xtrimMinId b.id).1, ⟨(w.stream.xtrimMinId b.id).2, w.log ++
      [.trimmed run b.id (w.stream.entries.filter fun e => e.id < b.id)]⟩)
    with ok | lost | cut
  · rw [ok]
    exact ⟨trivial, ordered', .inl ⟨_, rfl, before, b, split, count, holds⟩⟩
  · rw [lost]
    exact ⟨trivial, ordered, .inr ⟨_, rfl, completed_failed stops h.own rfl rfl⟩⟩
  · rw [cut]
    exact ⟨trivial, ordered', .inr ⟨_, rfl, completed_failed stops holds.own rfl rfl⟩⟩

theorem delete_step {id : Nat} (stops : Stops fromHashmap batch xs)
    (last : lastProcessed none xs = some id) : (undisturbed fromHashmap run).Step
      (TrimmedTo run batch xs n) (.streamDeleteEntries streamName id) fun reply w =>
        (∃ m, reply = .ok m ∧ DeletedTo run batch xs (n + 1) w) ∨
          ∃ e, reply = .error e ∧ Completed fromHashmap run (.error (.redisError e)) w.log := by
  rintro w o ordered _ ⟨before, b, split, rfl, h⟩
  obtain ⟨_, b', split', rfl⟩ := lastProcessed_some last
  obtain ⟨_, same⟩ := List.append_inj' (split'.symm.trans split) rfl
  cases List.singleton_inj.mp same
  obtain ⟨ordered', own⟩ := delete_ordered h ordered
  rw [history_snoc] at own
  simp only [undisturbed, exec]
  rcases Delivery.through_cases o.redis RedisError.streamDeleteFailed w
    ((w.stream.xdel [b.id]).1, ⟨(w.stream.xdel [b.id]).2, w.log ++
      [.deleted run b.id (w.stream.entries.filter fun e => [b.id].contains e.id)]⟩)
    with ok | lost | cut
  · rw [ok]
    exact ⟨trivial, ordered', .inl ⟨_, rfl, before, b, split, rfl, own⟩⟩
  · rw [lost]
    exact ⟨trivial, ordered, .inr ⟨_, rfl, completed_failed stops h.own rfl rfl⟩⟩
  · rw [cut]
    exact ⟨trivial, ordered', .inr ⟨_, rfl, completed_failed stops own rfl rfl⟩⟩

theorem DeletedTo.completed {w : Shard φ} (stops : Stops fromHashmap batch xs)
    (deleted : DeletedTo run batch xs batch.length w) :
    Completed fromHashmap run (.ok ()) w.log := by
  obtain ⟨before, b, split, count, own⟩ := deleted
  refine completed_ok stops own rfl rfl ?_ ?_
  · simpa [removals] using split.symm
  · rw [if_pos (.inr (by rw [count, split, List.length_append]; rfl))]
    rfl

theorem report_step (stops : Stops fromHashmap batch xs) (some : processedEntries xs ≠ [])
    (differ : batch.length ≠ n) : (undisturbed fromHashmap run).Step (DeletedTo run batch xs n)
      (.assertionFailed batch.length n) fun _ w => Completed fromHashmap run (.ok ()) w.log := by
  rintro w o ordered _ ⟨before, b, split, count, own⟩
  have length : (processedEntries xs).length = n := by
    rw [count, split, List.length_append]
    rfl
  refine ⟨trivial, report_ordered _ _ ordered, ?_⟩
  have own' : eventsBy run (w.log ++ [.assertionFailed run batch.length n]) = history run batch xs
      [.trimmed run b.id before, .deleted run b.id [b], .assertionFailed run batch.length n] := by
    rw [eventsBy_append, own, eventsBy_own rfl, history_snoc]
    rfl
  refine completed_ok stops own' rfl rfl ?_ ?_
  · simpa [removals] using split.symm
  · have notAll : ¬ (processedEntries xs = [] ∨ (processedEntries xs).length = batch.length) := by
      rintro (none | all)
      · exact some none
      · exact differ (all.symm.trans length)
    rw [if_neg notAll, length]
    rfl

def orderedOutline (fromHashmap : φ → Except π δ) (run maxReadCount : Nat) (streamName : String) :
    Outline (undisturbed fromHashmap run) fromHashmap maxReadCount streamName
      (fun result w => Completed fromHashmap run result w.log) where
  begun := fun w => eventsBy run w.log = []
  looping := fun batch xs => Knows run (history run batch xs []) batch (processedEntries xs)
  trimmed := TrimmedTo run
  deleted := DeletedTo run
  begun_stable := by
    rintro w w' ⟨more, _, log⟩ _ silent
    rw [log, eventsBy_appends]
    exact silent
  looping_stable := fun _ _ => Knows.stable
  trimmed_stable := fun _ _ _ => trimmedTo_stable
  deleted_stable := fun _ _ _ => deletedTo_stable
  read := read_step
  execute := by
    intro batch xs entry rest data split gone parsed w o ordered _ h
    obtain ⟨ordered', holds⟩ := execute_ordered o.query h split gone parsed ordered
    exact ⟨trivial, ordered', holds⟩
  nothing := by
    intro batch xs w stops none h
    refine completed_ok stops h.own rfl rfl none.symm ?_
    rw [none, if_pos (.inl rfl)]
    rfl
  trim := fun _ _ _ => trim_step
  delete := fun _ _ _ _ => delete_step
  finish := fun _ _ _ stops _ => DeletedTo.completed stops
  report := fun _ _ _ => report_step

end Undisturbed

def inSequence (fromHashmap : φ → Except π δ) (streamName : String) :
    Discipline (machine fromHashmap streamName) Machine.oneAtATime (.initial Shard.empty) where
  inv := Ordered fromHashmap
  rely := fun _ => Appends
  guar := fun _ _ _ _ _ => True
  allow := fun _ _ _ _ => True
  post := fun run _ result w => Completed fromHashmap run result w.log
  rely_refl := fun _ w => ⟨[], by simp, by simp⟩
  rely_trans := fun _ _ _ _ h g => h.trans g
  starts := by
    refine ⟨⟨rfl, ⟨[], rfl, List.prefix_rfl⟩, List.prefix_rfl, .nil, ?_, ?_⟩, fun _ => rfl⟩
    · intro e he
      cases he
    · intro before ev after split
      cases before <;> cases split
  allowed := fun _ _ => trivial
  spawned := by
    intro c run maxReadCount reached _ idle _
    have silent := (shardHistory fromHashmap streamName).idle_silent reached (fun _ => rfl) run idle
    exact drainer_holds (orderedOutline fromHashmap run maxReadCount streamName) silent
  others := by
    intro c p q _ _ _ _ _ _ _ reached hp hq differ _ _
    exact absurd (reached.alone (fun _ => rfl) hp hq) differ
  env := by
    intro c e t _ _ ordered moved
    obtain ⟨appends, ordered'⟩ := append_ordered moved ordered
    exact ⟨ordered', fun _ _ _ _ _ => appends⟩
  kept := by
    intro run _ result c act d _ _ hs _ _ returned completed
    have same : eventsBy run d.world.log = eventsBy run c.world.log :=
      (shardHistory fromHashmap streamName).step_other hs (Machine.step_done hs returned)
    unfold Completed at completed ⊢
    rw [same]
    exact completed

theorem drainer_in_order {c : Config (Command φ δ) (Reply φ δ) (Shard φ) Nat _}
    (reached : Machine.Reach (machine fromHashmap streamName) Machine.oneAtATime
      (.initial Shard.empty) c) :
    InOrder fromHashmap c.world ∧
      ∀ run maxReadCount result, c.procs run = .live maxReadCount (.done result) →
        Completed fromHashmap run result c.world.log := by
  have sound := (inSequence fromHashmap streamName).sound reached
  have ordered : Ordered fromHashmap c.world := sound.inv
  refine ⟨⟨ordered.first, ordered.stream, ordered.fits⟩, ?_⟩
  intro run maxReadCount result returned
  exact sound.holds run maxReadCount _ returned

/-- The second of two entries fails: the first one is applied and removed. -/
theorem drainer_in_order_cut :
    ∃ c : Config (Command Nat Nat) (Reply Nat Nat) (Shard Nat) Nat _,
      firstSuccesses c.world.log = [⟨1, 7⟩] ∧ c.world.stream.entries = [⟨2, 8⟩] ∧
      InOrder (fun n => (.ok n : Except Unit Nat)) c.world ∧
        ∀ run maxReadCount result, c.procs run = .live maxReadCount (.done result) →
          Completed (fun n => (.ok n : Except Unit Nat)) run result c.world.log := by
  let M := machine (fun n => (.ok n : Except Unit Nat)) "s"
  have ran : M.run (.initial Shard.empty) [.env ⟨0, 7⟩, .env ⟨0, 8⟩, .spawn 0 10, .step 0 {},
      .step 0 {}, .step 0 { query := .failed .others }, .step 0 {}, .step 0 {}, .step 0 {}] =
        some _ := rfl
  have met : M.Meets Machine.oneAtATime (.initial Shard.empty) [.env ⟨0, 7⟩, .env ⟨0, 8⟩,
      .spawn 0 10, .step 0 {}, .step 0 {}, .step 0 { query := .failed .others }, .step 0 {},
      .step 0 {}, .step 0 {}] := by
    refine Machine.meets_cons trivial rfl (Machine.meets_cons trivial rfl
      (Machine.meets_cons ?_ rfl ?_))
    · intro p a cmd k live
      cases live
    · exact Machine.meets_cons trivial rfl (Machine.meets_cons trivial rfl (Machine.meets_cons
        trivial rfl (Machine.meets_cons trivial rfl (Machine.meets_cons trivial rfl
          (Machine.meets_cons trivial rfl trivial)))))
  exact ⟨_, rfl, rfl, drainer_in_order (Machine.reach_of_meets met ran)⟩

end Mercado.Drainer
