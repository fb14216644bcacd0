import Mercado.Async.History
import Mercado.Drainer.Handler

/-! One run of the drainer: which entries of its batch it executes, in which order,
and where it stops, whatever happens to the shard between its steps. -/
namespace Mercado.Drainer
open Async Redis

variable {φ δ π : Type}

/-- The executions that the loop makes over a batch. It goes on after each entry
that is executed with `Ok` or `UniqueViolation`, and stops at the first entry that
does not parse or fails otherwise. -/
inductive Stops (fromHashmap : φ → Except π δ) :
    StreamEntries φ → List (Entry φ × QueryResult) → Prop where
  | finished : Stops fromHashmap [] []
  | unparsed {e rest err} : fromHashmap e.fields = .error err → Stops fromHashmap (e :: rest) []
  | failed {e rest data r} : fromHashmap e.fields = .ok data → r.processed = false →
      Stops fromHashmap (e :: rest) [(e, r)]
  | processed {e rest data r xs} : fromHashmap e.fields = .ok data → r.processed = true →
      Stops fromHashmap rest xs → Stops fromHashmap (e :: rest) ((e, r) :: xs)

def processedEntries (xs : List (Entry φ × QueryResult)) : StreamEntries φ :=
  (xs.filter fun x => x.2.processed).map Prod.fst

def lastProcessed (last : Option Nat) (xs : List (Entry φ × QueryResult)) : Option Nat :=
  xs.foldl (fun last x => if x.2.processed then some x.1.id else last) last

theorem processedEntries_all {xs : List (Entry φ × QueryResult)}
    (all : ∀ x ∈ xs, x.2.processed = true) : processedEntries xs = xs.map Prod.fst := by
  unfold processedEntries
  rw [List.filter_eq_self.mpr all]

theorem lastProcessed_eq (last : Option Nat) (xs : List (Entry φ × QueryResult)) :
    lastProcessed last xs = ((processedEntries xs).getLast?.map Entry.id).or last := by
  induction xs generalizing last with
  | nil => rfl
  | cons x xs ih =>
    have rest := ih (if x.2.processed then some x.1.id else last)
    unfold lastProcessed at rest ⊢
    rw [List.foldl_cons, rest]
    unfold processedEntries
    by_cases go : x.2.processed
    · simp only [go, if_true, List.filter_cons, List.map_cons, List.getLast?_cons]
      cases (List.map Prod.fst (xs.filter fun x => x.2.processed)).getLast? <;> rfl
    · simp only [go, List.filter_cons]
      rfl

theorem lastProcessed_some {xs : List (Entry φ × QueryResult)} {id : Nat}
    (h : lastProcessed none xs = some id) :
    ∃ before e, processedEntries xs = before ++ [e] ∧ e.id = id := by
  rw [lastProcessed_eq, Option.or_none, Option.map_eq_some_iff] at h
  obtain ⟨e, last, same⟩ := h
  obtain ⟨before, split⟩ := List.getLast?_eq_some_iff.mp last
  exact ⟨before, e, split, same⟩

theorem lastProcessed_none {xs : List (Entry φ × QueryResult)}
    (h : lastProcessed none xs = none) : processedEntries xs = [] := by
  rw [lastProcessed_eq, Option.or_none, Option.map_eq_none_iff] at h
  exact List.getLast?_eq_none_iff.mp h

variable {fromHashmap : φ → Except π δ} {batch : StreamEntries φ}
  {xs : List (Entry φ × QueryResult)}

theorem Stops.entries_prefix (h : Stops fromHashmap batch xs) : xs.map Prod.fst <+: batch := by
  induction h with
  | finished => exact List.prefix_rfl
  | unparsed => exact List.nil_prefix
  | @failed e rest => exact ⟨rest, rfl⟩
  | processed _ _ _ ih => exact (List.prefix_cons_inj _).mpr ih

theorem Stops.processed_prefix (h : Stops fromHashmap batch xs) :
    processedEntries xs <+: batch := by
  induction h with
  | finished => exact List.prefix_rfl
  | unparsed => exact List.nil_prefix
  | failed _ stop => simp [processedEntries, stop]
  | processed _ go _ ih =>
    simp only [processedEntries, List.filter_cons, go, if_true, List.map_cons]
    exact (List.prefix_cons_inj _).mpr ih

theorem Stops.processed_up_to (h : Stops fromHashmap batch xs)
    (sorted : batch.Pairwise fun a b => a.id < b.id) {id : Nat}
    (last : lastProcessed none xs = some id) {e : Entry φ} (he : e ∈ batch) (le : e.id ≤ id) :
    e ∈ processedEntries xs := by
  obtain ⟨before, b, split, rfl⟩ := lastProcessed_some last
  have hb : b ∈ processedEntries xs := by simp [split]
  exact mem_prefix_of_sorted sorted h.processed_prefix he hb le

theorem processed_result {e : Entry φ} (h : e ∈ processedEntries xs) :
    ∃ r, (e, r) ∈ xs ∧ r.processed = true := by
  obtain ⟨x, hx, rfl⟩ := List.mem_map.mp h
  obtain ⟨mem, go⟩ := List.mem_filter.mp hx
  exact ⟨x.2, mem, go⟩

theorem Stops.one_result (h : Stops fromHashmap batch xs) (distinct : batch.Nodup) {e : Entry φ}
    {r q : QueryResult} (hr : (e, r) ∈ xs) (hq : (e, q) ∈ xs) : r = q := by
  obtain ⟨rest, split⟩ := h.entries_prefix
  have nodup : (xs.map Prod.fst).Nodup := (List.nodup_append.mp (split ▸ distinct)).1
  exact congrArg Prod.snd (List.inj_on_of_nodup_map nodup hr hq rfl)

/- What the log tells about a run. -/

def Event.run : Event φ → Option Nat
  | .appended _ => none
  | .read run _ | .executed run _ _ | .trimmed run _ _ | .deleted run _ _ => some run
  | .assertionFailed run _ _ => some run

abbrev eventsBy (run : Nat) (log : List (Event φ)) : List (Event φ) :=
  ownEvents Event.run run log

@[simp] theorem eventsBy_append (run : Nat) (log more : List (Event φ)) :
    eventsBy run (log ++ more) = eventsBy run log ++ eventsBy run more :=
  ownEvents_append ..

theorem eventsBy_own {run : Nat} {ev : Event φ} (own : ev.run = some run) :
    eventsBy run [ev] = [ev] :=
  ownEvents_own own

theorem eventsBy_foreign {run : Nat} {more : List (Event φ)}
    (foreign : ∀ ev ∈ more, ev.run ≠ some run) : eventsBy run more = [] :=
  ownEvents_foreign foreign

def executions (log : List (Event φ)) : List (Entry φ × QueryResult) :=
  log.filterMap fun
    | .executed _ entry result => some (entry, result)
    | _ => none

@[simp] theorem executions_append (log more : List (Event φ)) :
    executions (log ++ more) = executions log ++ executions more :=
  List.filterMap_append

@[simp] theorem appendedEntries_append (log more : List (Event φ)) :
    appendedEntries (log ++ more) = appendedEntries log ++ appendedEntries more :=
  List.filterMap_append

theorem mem_executions {run : Nat} {log : List (Event φ)} {e : Entry φ} {r : QueryResult} :
    (e, r) ∈ executions (eventsBy run log) ↔ .executed run e r ∈ log := by
  constructor
  · intro h
    obtain ⟨ev, hev, out⟩ := List.mem_filterMap.mp h
    obtain ⟨mem, own⟩ := mem_ownEvents.mp hev
    cases ev with
    | executed by' entry result =>
      cases Option.some.inj out
      exact Option.some.inj own ▸ mem
    | appended | read | trimmed | deleted | assertionFailed => cases out
  · intro h
    exact List.mem_filterMap.mpr ⟨_, mem_ownEvents.mpr ⟨h, rfl⟩, rfl⟩

theorem exec_log (run : Nat) (c : Command φ δ) (o : Choice) (w : Shard φ) :
    ∃ more : List (Event φ), (exec run c o w).2.log = w.log ++ more ∧
      ∀ ev ∈ more, ev.run = some run ∨ ev.run = none := by
  cases c with
  | streamReadEntries | streamTrimEntries | streamDeleteEntries =>
    cases h : o.redis <;> simp [exec, h, Delivery.through, Event.run]
  | executeQuery | assertionFailed => simp [exec, Event.run]

def shardHistory (fromHashmap : φ → Except π δ) (streamName : String) :
    History (machine fromHashmap streamName) (Event φ) where
  log := Shard.log
  owner := Event.run
  exec := exec_log
  env := by
    intro a w w' moved
    cases Option.some.inj moved
    exact ⟨_, rfl, by simp [Event.run]⟩

/- The proof outline of a run: an assertion for each of its await points, and what
each command must make of the assertion before it. -/

variable {P : Setting (Command φ δ) (Reply φ δ) (Shard φ) Choice}

/-- The loop rule: if each execution of the next entry leads from `I` to `I`, the
loop ends with the executions of `Stops`. -/
theorem processEntries_holds (I : List (Entry φ × QueryResult) → Shard φ → Prop)
    (stable : ∀ xs, P.Stable (I xs))
    (execute : ∀ xs entry rest data, batch = xs.map Prod.fst ++ entry :: rest →
      (∀ x ∈ xs, x.2.processed = true) → fromHashmap entry.fields = .ok data →
      P.Step (I xs) (.executeQuery entry data) fun result => I (xs ++ [(entry, result)]))
    (todo : StreamEntries φ) (xs : List (Entry φ × QueryResult)) (last : Option Nat) (s : Shard φ)
    (split : batch = xs.map Prod.fst ++ todo) (gone : ∀ x ∈ xs, x.2.processed = true)
    (holds : I xs s) :
    P.Holds (fun last' s' => ∃ ys, Stops fromHashmap todo ys ∧ I (xs ++ ys) s' ∧
      last' = lastProcessed last ys) (processEntries fromHashmap todo last) s := by
  induction todo generalizing xs last s with
  | nil => exact ⟨[], .finished, by simpa using holds, rfl⟩
  | cons entry rest ih =>
    unfold processEntries
    split
    · rename_i err unparsed
      exact ⟨[], .unparsed unparsed, by simpa using holds, rfl⟩
    · rename_i data parsed
      refine .await (stable xs) (execute xs entry rest data split gone parsed) ?_ holds
      intro result s' holds'
      -- two of the three arms go on with the loop
      have goOn : result.processed = true → P.Holds (fun last' s' => ∃ ys,
          Stops fromHashmap (entry :: rest) ys ∧ I (xs ++ ys) s' ∧ last' = lastProcessed last ys)
          (processEntries fromHashmap rest (some entry.id)) s' := by
        intro go
        refine (ih (xs ++ [(entry, result)]) (some entry.id) _ (by simp [split]) ?_ holds').mono ?_
        · intro x hx
          rcases List.mem_append.mp hx with hx | hx
          · exact gone x hx
          · cases List.mem_singleton.mp hx
            exact go
        · rintro last' u ⟨ys, stops, holds'', rfl⟩
          refine ⟨(entry, result) :: ys, .processed parsed go stops, by simpa using holds'', ?_⟩
          simp only [lastProcessed, List.foldl_cons, go, if_true]
      have stop : result.processed = false → ∃ ys, Stops fromHashmap (entry :: rest) ys ∧
          I (xs ++ ys) s' ∧ last = lastProcessed last ys := by
        intro stop
        refine ⟨[(entry, result)], .failed parsed stop, holds', ?_⟩
        simp only [lastProcessed, List.foldl_cons, List.foldl_nil, stop]
        rfl
      cases result with
      | ok => exact goOn rfl
      | failed err =>
        cases err with
        | uniqueViolation => exact goOn rfl
        | databaseConnectionError | notFound | noFieldsToUpdate | queryGenerationFailed | others =>
          exact stop rfl

def readFailed : RedisError → Except DrainerError Unit
  | .streamEmptyOrNotAvailable => .ok ()
  | e => .error (.redisError e)

structure Outline (P : Setting (Command φ δ) (Reply φ δ) (Shard φ) Choice)
    (fromHashmap : φ → Except π δ) (maxReadCount : Nat) (streamName : String)
    (post : Except DrainerError Unit → Shard φ → Prop) where
  begun : Shard φ → Prop
  looping : StreamEntries φ → List (Entry φ × QueryResult) → Shard φ → Prop
  trimmed : StreamEntries φ → List (Entry φ × QueryResult) → Nat → Shard φ → Prop
  deleted : StreamEntries φ → List (Entry φ × QueryResult) → Nat → Shard φ → Prop
  begun_stable : P.Stable begun
  looping_stable : ∀ batch xs, P.Stable (looping batch xs)
  trimmed_stable : ∀ batch xs n, P.Stable (trimmed batch xs n)
  deleted_stable : ∀ batch xs n, P.Stable (deleted batch xs n)
  read : P.Step begun (.streamReadEntries streamName 0 maxReadCount) fun reply s =>
    (∃ batch, reply = .ok [(streamName, batch)] ∧ looping batch [] s) ∨
      ∃ e, reply = .error e ∧ post (readFailed e) s
  execute : ∀ batch xs entry rest data, batch = xs.map Prod.fst ++ entry :: rest →
    (∀ x ∈ xs, x.2.processed = true) → fromHashmap entry.fields = .ok data →
    P.Step (looping batch xs) (.executeQuery entry data) fun result =>
      looping batch (xs ++ [(entry, result)])
  nothing : ∀ batch xs s, Stops fromHashmap batch xs → processedEntries xs = [] →
    looping batch xs s → post (.ok ()) s
  trim : ∀ batch xs id, Stops fromHashmap batch xs → lastProcessed none xs = some id →
    P.Step (looping batch xs) (.streamTrimEntries streamName id) fun reply s =>
      (∃ n, reply = .ok n ∧ trimmed batch xs n s) ∨
        ∃ e, reply = .error e ∧ post (.error (.redisError e)) s
  delete : ∀ batch xs id n, Stops fromHashmap batch xs → lastProcessed none xs = some id →
    P.Step (trimmed batch xs n) (.streamDeleteEntries streamName id) fun reply s =>
      (∃ m, reply = .ok m ∧ deleted batch xs (n + 1) s) ∨
        ∃ e, reply = .error e ∧ post (.error (.redisError e)) s
  finish : ∀ batch xs s, Stops fromHashmap batch xs → processedEntries xs ≠ [] →
    deleted batch xs batch.length s → post (.ok ()) s
  report : ∀ batch xs n, Stops fromHashmap batch xs → processedEntries xs ≠ [] →
    batch.length ≠ n → P.Step (deleted batch xs n) (.assertionFailed batch.length n) fun _ =>
      post (.ok ())

variable {maxReadCount : Nat} {streamName : String}
  {post : Except DrainerError Unit → Shard φ → Prop}

theorem trimFromStream_holds (O : Outline P fromHashmap maxReadCount streamName post) {id : Nat}
    (stops : Stops fromHashmap batch xs) (last : lastProcessed none xs = some id) {s : Shard φ}
    (holds : O.looping batch xs s) :
    P.Holds (fun result s => (∃ n, result = .ok n ∧ O.deleted batch xs n s) ∨
      ∃ e, result = .error e ∧ post (.error e) s) (trimFromStream streamName id) s := by
  refine .await (O.looping_stable batch xs) (O.trim batch xs id stops last) ?_ holds
  rintro _ s (⟨n, rfl, holds⟩ | ⟨e, rfl, ended⟩)
  · refine .await (O.trimmed_stable batch xs n) (O.delete batch xs id n stops last) ?_ holds
    rintro _ s (⟨m, rfl, holds⟩ | ⟨e, rfl, ended⟩)
    · exact .inl ⟨n + 1, rfl, holds⟩
    · exact .inr ⟨_, rfl, ended⟩
  · exact .inr ⟨_, rfl, ended⟩

theorem drainer_holds (O : Outline P fromHashmap maxReadCount streamName post) {s : Shard φ}
    (begun : O.begun s) : P.Holds post (drainer fromHashmap maxReadCount streamName) s := by
  refine .await O.begun_stable O.read ?_ begun
  rintro _ s (⟨batch, rfl, holds⟩ | ⟨e, rfl, ended⟩)
  · have found : parseStreamEntries [(streamName, batch)] streamName = .ok batch := by
      simp [parseStreamEntries]
    simp only [Task.bind_done, found, Task.pure_eq]
    refine Setting.Holds.bind ((processEntries_holds (O.looping batch)
      (O.looping_stable batch) (O.execute batch) batch [] none s rfl (by simp) holds).mono ?_)
    rintro last s ⟨ys, stops, holds, rfl⟩
    rw [List.nil_append] at holds
    cases last : lastProcessed none ys with
    | none => exact O.nothing batch ys s stops (lastProcessed_none last) holds
    | some id =>
      have some_processed : processedEntries ys ≠ [] := by
        obtain ⟨before, e, split, _⟩ := lastProcessed_some last
        simp [split]
      refine Setting.Holds.bind ((trimFromStream_holds O stops last holds).mono ?_)
      rintro _ s (⟨n, rfl, holds⟩ | ⟨e, rfl, ended⟩)
      · by_cases same : batch.length = n
        · subst same
          simp only [if_true]
          exact O.finish batch ys s stops some_processed holds
        · simp only [same, if_false]
          refine .await (O.deleted_stable batch ys n)
            (O.report batch ys n stops some_processed same) ?_ holds
          intro _ s ended
          exact ended
      · exact ended
  · cases e <;> exact ended

end Mercado.Drainer
