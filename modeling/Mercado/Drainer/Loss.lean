import Mercado.Drainer.Run

/-! Overlapping drainers lose nothing: XTRIM and XDEL only remove entries that the
run itself has executed, whatever other runs and the clients do in between. -/
namespace Mercado.Drainer
open Async Redis

variable {φ δ π : Type}

def Applied (log : List (Event φ)) (e : Entry φ) : Prop :=
  ∃ run r, .executed run e r ∈ log ∧ r.processed = true

/-- The run executed the entry, and never with a failure. -/
def AppliedBy (run : Nat) (log : List (Event φ)) (e : Entry φ) : Prop :=
  (∃ r, .executed run e r ∈ log ∧ r.processed = true) ∧
    ∀ r, .executed run e r ∈ log → r.processed = true

structure Intact (fromHashmap : φ → Except π δ) (w : Shard φ) : Prop where
  order : w.stream.entries.Sublist (appendedEntries w.log)
  kept : ∀ e ∈ appendedEntries w.log, e ∈ w.stream.entries ∨ Applied w.log e
  parsed : ∀ x ∈ executions w.log, ∃ data, fromHashmap x.1.fields = .ok data

structure Later (w w' : Shard φ) : Prop where
  lastId : w.stream.lastId ≤ w'.stream.lastId
  fresh : ∀ e ∈ w'.stream.entries, e ∈ w.stream.entries ∨ w.stream.lastId < e.id

structure Others (run : Nat) (w w' : Shard φ) : Prop where
  later : Later w w'
  own : eventsBy run w'.log = eventsBy run w.log

structure Drains (run : Nat) (w w' : Shard φ) : Prop where
  later : Later w w'
  foreign : ∀ other ≠ run, eventsBy other w'.log = eventsBy other w.log
  removes : ∀ e ∈ w.stream.entries, e ∉ w'.stream.entries → AppliedBy run w.log e

/-- Every entry up to some id of the batch is in the batch, now and later. -/
structure Covers (batch : StreamEntries φ) (w : Shard φ) : Prop where
  sorted : batch.Pairwise fun a b => a.id < b.id
  issued : ∀ b ∈ batch, b.id ≤ w.stream.lastId
  upTo : ∀ e ∈ w.stream.entries, ∀ b ∈ batch, e.id ≤ b.id → e ∈ batch

theorem Later.refl (w : Shard φ) : Later w w := ⟨Nat.le_refl _, fun _ he => .inl he⟩

theorem Later.trans {u v w : Shard φ} (h : Later u v) (g : Later v w) : Later u w := by
  refine ⟨Nat.le_trans h.lastId g.lastId, fun e he => ?_⟩
  rcases g.fresh e he with he | above
  · exact h.fresh e he
  · exact .inr (Nat.lt_of_le_of_lt h.lastId above)

theorem Covers.later {batch : StreamEntries φ} {w w' : Shard φ} (h : Covers batch w)
    (later : Later w w') : Covers batch w' := by
  refine ⟨h.sorted, fun b hb => Nat.le_trans (h.issued b hb) later.lastId, ?_⟩
  intro e he b hb le
  rcases later.fresh e he with he | above
  · exact h.upTo e he b hb le
  · have := h.issued b hb
    omega

theorem covers_prefix {batch : StreamEntries φ} {w : Shard φ} (head : batch <+: w.stream.entries) :
    Covers batch w := by
  refine ⟨w.stream.sorted.sublist head.sublist, ?_, ?_⟩
  · intro b hb
    exact (w.stream.issued b (head.subset hb)).2
  · intro e he b hb le
    exact mem_prefix_of_sorted w.stream.sorted head he hb le

theorem Applied.mono {log : List (Event φ)} {e : Entry φ} (h : Applied log e)
    (more : List (Event φ)) : Applied (log ++ more) e := by
  obtain ⟨run, r, mem, go⟩ := h
  exact ⟨run, r, List.mem_append_left _ mem, go⟩

variable {fromHashmap : φ → Except π δ} {streamName : String}

theorem applied_up_to {run : Nat} {batch : StreamEntries φ} {xs : List (Entry φ × QueryResult)}
    {id : Nat} {w : Shard φ} (stops : Stops fromHashmap batch xs)
    (last : lastProcessed none xs = some id) (covers : Covers batch w)
    (own : executions (eventsBy run w.log) = xs) {e : Entry φ} (he : e ∈ w.stream.entries)
    (le : e.id ≤ id) : AppliedBy run w.log e := by
  obtain ⟨before, b, split, rfl⟩ := lastProcessed_some last
  have hb : b ∈ batch := stops.processed_prefix.subset (by simp [split])
  have inBatch : e ∈ batch := covers.upTo e he b hb le
  have processed := stops.processed_up_to covers.sorted last inBatch le
  obtain ⟨r, mem, go⟩ := processed_result processed
  refine ⟨⟨r, mem_executions.mp (own ▸ mem), go⟩, ?_⟩
  intro q hq
  have same : q = r :=
    stops.one_result (nodup_of_sorted covers.sorted) (own ▸ mem_executions.mpr hq) mem
  exact same ▸ go

theorem drains_of_keep {run : Nat} {w w' : Shard φ} {ev : Event φ} (keep : Entry φ → Bool)
    (entries : w'.stream.entries = w.stream.entries.filter keep)
    (lastId : w'.stream.lastId = w.stream.lastId) (log : w'.log = w.log ++ [ev])
    (own : ev.run = some run) (parsed : ∀ x ∈ executions [ev], ∃ data, fromHashmap x.1.fields = .ok data)
    (removes : ∀ e ∈ w.stream.entries, keep e = false → AppliedBy run w.log e)
    (intact : Intact fromHashmap w) : Drains run w w' ∧ Intact fromHashmap w' := by
  have removed : ∀ e ∈ w.stream.entries, e ∉ w'.stream.entries → AppliedBy run w.log e := by
    intro e he gone
    refine removes e he ?_
    cases test : keep e with
    | false => rfl
    | true => exact absurd (entries ▸ List.mem_filter.mpr ⟨he, test⟩) gone
  have nothingAppended : appendedEntries [ev] = [] := by
    cases ev with
    | appended => cases own
    | read | executed | trimmed | deleted | assertionFailed => rfl
  refine ⟨⟨⟨Nat.le_of_eq lastId.symm, ?_⟩, ?_, removed⟩, ?_, ?_, ?_⟩
  · intro e he
    rw [entries] at he
    exact .inl (List.mem_of_mem_filter he)
  · intro other differ
    have foreign : ∀ x ∈ [ev], x.run ≠ some other := by
      intro x hx same
      rw [List.mem_singleton.mp hx, own] at same
      exact differ (Option.some.inj same).symm
    rw [log, eventsBy_append, eventsBy_foreign foreign, List.append_nil]
  · rw [entries, log, appendedEntries_append, nothingAppended, List.append_nil]
    exact List.filter_sublist.trans intact.order
  · intro e he
    rw [log, appendedEntries_append, nothingAppended, List.append_nil] at he
    rcases intact.kept e he with still | applied
    · by_cases stays : e ∈ w'.stream.entries
      · exact .inl stays
      · obtain ⟨⟨r, mem, go⟩, _⟩ := removed e still stays
        exact .inr (log ▸ Applied.mono ⟨run, r, mem, go⟩ [ev])
    · exact .inr (log ▸ applied.mono [ev])
  · intro x hx
    rw [log, executions_append] at hx
    rcases List.mem_append.mp hx with hx | hx
    · exact intact.parsed x hx
    · exact parsed x hx

theorem drains_of_log {run : Nat} {w w' : Shard φ} {ev : Event φ} (stream : w'.stream = w.stream)
    (log : w'.log = w.log ++ [ev]) (own : ev.run = some run)
    (parsed : ∀ x ∈ executions [ev], ∃ data, fromHashmap x.1.fields = .ok data)
    (intact : Intact fromHashmap w) : Drains run w w' ∧ Intact fromHashmap w' := by
  refine drains_of_keep (fun _ => true) ?_ (by rw [stream]) log own parsed ?_ intact
  · rw [stream, List.filter_true]
  · intro e _ removed
    cases removed

theorem drains_refl {run : Nat} {w : Shard φ} (intact : Intact fromHashmap w) :
    Drains run w w ∧ Intact fromHashmap w :=
  ⟨⟨.refl w, fun _ _ => rfl, fun _ he gone => absurd he gone⟩, intact⟩

theorem append_intact {a : Append φ} {w w' : Shard φ} (h : append a w = some w')
    (intact : Intact fromHashmap w) : Later w w' ∧ Intact fromHashmap w' := by
  cases Option.some.inj h
  refine ⟨⟨?_, ?_⟩, ?_, ?_, ?_⟩
  · simp only [Stream.xadd_lastId]
    omega
  · intro e he
    rcases List.mem_append.mp he with he | he
    · exact .inl he
    · cases List.mem_singleton.mp he
      simp only
      omega
  · rw [appendedEntries_append]
    exact intact.order.append (List.Sublist.refl _)
  · intro e he
    rw [appendedEntries_append] at he
    rcases List.mem_append.mp he with he | he
    · rcases intact.kept e he with still | applied
      · exact .inl (List.mem_append_left _ still)
      · exact .inr (applied.mono _)
    · exact .inl (List.mem_append_right _ he)
  · intro x hx
    rw [executions_append] at hx
    exact intact.parsed x (by simpa [executions] using hx)

def overlapping (fromHashmap : φ → Except π δ) (run : Nat) :
    Setting (Command φ δ) (Reply φ δ) (Shard φ) Choice where
  exec := exec run
  inv := Intact fromHashmap
  rely := Others run
  guar := fun _ => Drains run
  allow := fun _ _ _ => True

structure Looping (run : Nat) (batch : StreamEntries φ) (xs : List (Entry φ × QueryResult))
    (w : Shard φ) : Prop where
  covers : Covers batch w
  own : executions (eventsBy run w.log) = xs

theorem Looping.stable {run : Nat} {batch : StreamEntries φ} {xs : List (Entry φ × QueryResult)} :
    (overlapping fromHashmap run).Stable (Looping run batch xs) := by
  intro w w' moved _ h
  exact ⟨h.covers.later moved.later, moved.own ▸ h.own⟩

theorem exec_drains (run : Nat) (c : Command φ δ) (o : Choice) {w : Shard φ}
    (parsed : ∀ entry data, c = .executeQuery entry data → fromHashmap entry.fields = .ok data)
    (trims : ∀ name id, c = .streamTrimEntries name id →
      ∀ e ∈ w.stream.entries, e.id < id → AppliedBy run w.log e)
    (deletes : ∀ name id, c = .streamDeleteEntries name id →
      ∀ e ∈ w.stream.entries, e.id = id → AppliedBy run w.log e)
    (intact : Intact fromHashmap w) :
    Drains run w (exec run c o w).2 ∧ Intact fromHashmap (exec run c o w).2 := by
  cases c with
  | streamReadEntries name id count =>
    cases answer : o.redis with
    | answered =>
      simp only [exec, answer]
      exact drains_of_log rfl rfl rfl (fun _ none => absurd none List.not_mem_nil) intact
    | lost | unanswered =>
      simp only [exec, answer]
      exact drains_refl intact
  | executeQuery entry data =>
    refine drains_of_log rfl rfl rfl ?_ intact
    intro x hx
    cases List.mem_singleton.mp hx
    exact ⟨data, parsed entry data rfl⟩
  | streamTrimEntries name id =>
    have removes : ∀ e ∈ w.stream.entries, (!decide (e.id < id)) = false →
        AppliedBy run w.log e := by
      intro e he below
      exact trims name id rfl e he (by simpa using below)
    have kept : ∀ removed, Drains run w
        ⟨(w.stream.xtrimMinId id).2, w.log ++ [.trimmed run id removed]⟩ ∧ Intact fromHashmap
        ⟨(w.stream.xtrimMinId id).2, w.log ++ [.trimmed run id removed]⟩ := fun _ =>
      drains_of_keep _ rfl rfl rfl rfl (fun _ none => absurd none List.not_mem_nil) removes intact
    simp only [exec]
    rcases Delivery.through_cases o.redis _ w _ with h | h | h <;> rw [h]
    · exact kept _
    · exact drains_refl intact
    · exact kept _
  | streamDeleteEntries name id =>
    have removes : ∀ e ∈ w.stream.entries, (!([id].contains e.id)) = false →
        AppliedBy run w.log e := by
      intro e he at'
      exact deletes name id rfl e he (by simpa using at')
    have kept : ∀ removed, Drains run w
        ⟨(w.stream.xdel [id]).2, w.log ++ [.deleted run id removed]⟩ ∧ Intact fromHashmap
        ⟨(w.stream.xdel [id]).2, w.log ++ [.deleted run id removed]⟩ := fun _ =>
      drains_of_keep _ rfl rfl rfl rfl (fun _ none => absurd none List.not_mem_nil) removes intact
    simp only [exec]
    rcases Delivery.through_cases o.redis _ w _ with h | h | h <;> rw [h]
    · exact kept _
    · exact drains_refl intact
    · exact kept _
  | assertionFailed n m =>
    exact drains_of_log rfl rfl rfl (fun _ none => absurd none List.not_mem_nil) intact

theorem exec_executions (run : Nat) (c : Command φ δ) (o : Choice) (w : Shard φ)
    (other : ∀ entry data, c ≠ .executeQuery entry data) :
    executions (eventsBy run (exec run c o w).2.log) = executions (eventsBy run w.log) := by
  cases c with
  | executeQuery entry data => exact absurd rfl (other entry data)
  | streamReadEntries | streamTrimEntries | streamDeleteEntries =>
    cases h : o.redis <;> simp [exec, h, Delivery.through, ownEvents, executions]
  | assertionFailed => simp [exec, ownEvents, executions]

section Looping

variable {run maxReadCount id : Nat} {streamName : String} {batch : StreamEntries φ}
  {xs : List (Entry φ × QueryResult)}

theorem read_looping : (overlapping fromHashmap run).Step
    (fun w => eventsBy run w.log = []) (.streamReadEntries streamName 0 maxReadCount)
    fun reply w => (∃ batch, reply = .ok [(streamName, batch)] ∧ Looping run batch [] w) ∨
      ∃ e, reply = .error e ∧ True := by
  intro w o intact _ silent
  obtain ⟨drains, intact'⟩ := exec_drains run (.streamReadEntries streamName 0 maxReadCount) o
    (by simp) (by simp) (by simp) intact
  refine ⟨drains, intact', ?_⟩
  cases answer : o.redis with
  | answered =>
    by_cases empty : (w.stream.xread 0 maxReadCount).isEmpty
    · exact .inr ⟨.streamEmptyOrNotAvailable, by simp [overlapping, exec, readReply, answer, empty],
        trivial⟩
    · refine .inl ⟨w.stream.xread 0 maxReadCount,
        by simp [overlapping, exec, readReply, answer, empty], ?_, ?_⟩
      · refine Covers.later ?_ drains.later
        rw [Stream.xread_first]
        exact covers_prefix (List.take_prefix _ _)
      · have same := exec_executions (δ := δ) run
          (.streamReadEntries streamName 0 maxReadCount) o w (by simp)
        rw [silent] at same
        exact same
  | lost | unanswered =>
    exact .inr ⟨.streamReadFailed, by simp [overlapping, exec, answer], trivial⟩

theorem execute_looping {entry : Entry φ} {data : δ} (parsed : fromHashmap entry.fields = .ok data) :
    (overlapping fromHashmap run).Step (Looping run batch xs) (.executeQuery entry data)
      fun result => Looping run batch (xs ++ [(entry, result)]) := by
  intro w o intact _ h
  obtain ⟨drains, intact'⟩ := exec_drains run (.executeQuery entry data) o
    (by rintro _ _ ⟨⟩; exact parsed) (by simp) (by simp) intact
  refine ⟨drains, intact', h.covers.later drains.later, ?_⟩
  have own := h.own
  simp only [overlapping, exec, eventsBy_append, executions_append, own]
  rw [eventsBy_own rfl]
  rfl

theorem trim_looping (stops : Stops fromHashmap batch xs) (last : lastProcessed none xs = some id) :
    (overlapping fromHashmap run).Step (Looping run batch xs) (.streamTrimEntries streamName id)
      fun reply w => (∃ n, reply = .ok n ∧ Looping run batch xs w) ∨
        ∃ e, reply = .error e ∧ True := by
  intro w o intact _ h
  obtain ⟨drains, intact'⟩ := exec_drains run (.streamTrimEntries streamName id) o
    (by simp) (by
      rintro _ _ ⟨⟩ e he below
      exact applied_up_to stops last h.covers h.own he (Nat.le_of_lt below)) (by simp) intact
  refine ⟨drains, intact', ?_⟩
  have own := exec_executions (δ := δ) run (.streamTrimEntries streamName id) o w (by simp)
  have holds : Looping run batch xs (exec (δ := δ) run (.streamTrimEntries streamName id) o w).2 :=
    ⟨h.covers.later drains.later, own.trans h.own⟩
  rcases Delivery.through_cases o.redis RedisError.streamTrimFailed w _ with ok | lost | cut
  · exact .inl ⟨_, congrArg Prod.fst ok, holds⟩
  · exact .inr ⟨_, congrArg Prod.fst lost, trivial⟩
  · exact .inr ⟨_, congrArg Prod.fst cut, trivial⟩

theorem delete_drains (stops : Stops fromHashmap batch xs)
    (last : lastProcessed none xs = some id) :
    (overlapping fromHashmap run).Step (Looping run batch xs) (.streamDeleteEntries streamName id)
      fun reply _ => (∃ n, reply = .ok n ∧ True) ∨ ∃ e, reply = .error e ∧ True := by
  intro w o intact _ h
  obtain ⟨drains, intact'⟩ := exec_drains run (.streamDeleteEntries streamName id) o
    (by simp) (by simp) (by
      rintro _ _ ⟨⟩ e he same
      exact applied_up_to stops last h.covers h.own he (Nat.le_of_eq same)) intact
  refine ⟨drains, intact', ?_⟩
  rcases Delivery.through_cases o.redis RedisError.streamDeleteFailed w _ with ok | lost | cut
  · exact .inl ⟨_, congrArg Prod.fst ok, trivial⟩
  · exact .inr ⟨_, congrArg Prod.fst lost, trivial⟩
  · exact .inr ⟨_, congrArg Prod.fst cut, trivial⟩

theorem report_drains {n m : Nat} : (overlapping fromHashmap run).Step (fun _ => True)
    (.assertionFailed n m) fun _ _ => True := by
  intro w o intact _ _
  obtain ⟨drains, intact'⟩ := exec_drains run (.assertionFailed n m) o
    (by simp) (by simp) (by simp) intact
  exact ⟨drains, intact', trivial⟩

end Looping

def losslessOutline (fromHashmap : φ → Except π δ) (run maxReadCount : Nat) (streamName : String) :
    Outline (overlapping fromHashmap run) fromHashmap maxReadCount streamName
      (fun _ _ => True) where
  begun := fun w => eventsBy run w.log = []
  looping := Looping run
  trimmed := fun batch xs _ => Looping run batch xs
  deleted := fun _ _ _ _ => True
  begun_stable := by
    intro w w' moved _ silent
    exact moved.own.trans silent
  looping_stable := fun _ _ => Looping.stable
  trimmed_stable := fun _ _ _ => Looping.stable
  deleted_stable := fun _ _ _ _ _ _ _ _ => trivial
  read := read_looping
  execute := fun _ _ _ _ _ _ _ => execute_looping
  nothing := fun _ _ _ _ _ _ => trivial
  trim := fun _ _ _ => trim_looping
  delete := fun _ _ _ _ => delete_drains
  finish := fun _ _ _ _ _ _ => trivial
  report := fun _ _ _ _ _ _ => report_drains

def lossless (fromHashmap : φ → Except π δ) (streamName : String) :
    Discipline (machine fromHashmap streamName) Machine.anyStep (.initial Shard.empty) where
  inv := Intact fromHashmap
  rely := Others
  guar := fun run _ _ => Drains run
  allow := fun _ _ _ _ => True
  post := fun _ _ _ _ => True
  rely_refl := fun _ w => ⟨.refl w, rfl⟩
  rely_trans := fun _ _ _ _ h g => ⟨h.later.trans g.later, g.own.trans h.own⟩
  starts := ⟨⟨List.nil_sublist _, by simp [appendedEntries, Config.initial, Shard.empty],
    by simp [executions, Config.initial, Shard.empty]⟩, fun _ => rfl⟩
  allowed := fun _ _ => trivial
  spawned := by
    intro c run maxReadCount reached _ idle _
    have silent := (shardHistory fromHashmap streamName).idle_silent reached (fun _ => rfl) run idle
    exact drainer_holds (losslessOutline fromHashmap run maxReadCount streamName) silent
  others := by
    intro c p q _ _ _ _ _ _ t _ _ _ differ _ drains
    exact ⟨drains.later, drains.foreign q (Ne.symm differ)⟩
  env := by
    intro c e t _ _ intact moved
    obtain ⟨later, intact'⟩ := append_intact moved intact
    exact ⟨intact', fun q _ _ _ _ => ⟨later, (shardHistory fromHashmap streamName).env_own moved q⟩⟩
  kept := fun _ _ _ _ _ _ _ => trivial

structure NothingLost (fromHashmap : φ → Except π δ) (before after : Shard φ)
    (process : Option Nat) : Prop where
  removed : ∀ e ∈ before.stream.entries, e ∉ after.stream.entries →
    ∃ run, process = some run ∧ AppliedBy run before.log e
  kept : ∀ e ∈ appendedEntries after.log, e ∈ after.stream.entries ∨ Applied after.log e
  unparsed : ∀ e ∈ appendedEntries after.log,
    (∀ data, fromHashmap e.fields ≠ .ok data) → e ∈ after.stream.entries
  order : after.stream.entries.Sublist (appendedEntries after.log)

theorem drainer_never_loses {c d : Config (Command φ δ) (Reply φ δ) (Shard φ) Nat _}
    {act : Action Choice (Append φ) Nat}
    (reached : Machine.Reach (machine fromHashmap streamName) Machine.anyStep
      (.initial Shard.empty) c)
    (h : (machine fromHashmap streamName).step c act = some d) :
    NothingLost fromHashmap c.world d.world act.process := by
  have before := (lossless fromHashmap streamName).sound reached
  have after := before.next reached trivial h
  have intact : Intact fromHashmap d.world := after.inv
  refine ⟨?_, intact.kept, ?_, intact.order⟩
  · intro e he gone
    rcases Machine.step_world h with same | ⟨run, o, _, _, _, rfl, _, _⟩ | ⟨a, _, moved⟩
    · exact absurd (same ▸ he) gone
    · obtain ⟨_, _, _, _, _, drains, _⟩ := before.own_step trivial h
      exact ⟨run, rfl, drains.removes e he gone⟩
    · have stays : e ∈ d.world.stream.entries := by
        rw [← Option.some.inj moved]
        exact List.mem_append_left _ he
      exact absurd stays gone
  · intro e he unparsed
    rcases intact.kept e he with still | ⟨run, r, mem, _⟩
    · exact still
    · obtain ⟨data, parsed⟩ := intact.parsed (e, r) (List.mem_filterMap.mpr ⟨_, mem, rfl⟩)
      exact absurd parsed (unparsed data)

/-- A run that has executed the only entry deletes it. -/
theorem drainer_never_loses_deleted :
    ∃ c d : Config (Command Nat Nat) (Reply Nat Nat) (Shard Nat) Nat _,
      (machine (fun n => (.ok n : Except Unit Nat)) "s").step c (.step 0 {}) = some d ∧
      c.world.stream.entries = [⟨1, 7⟩] ∧ d.world.stream.entries = [] ∧
      NothingLost (fun n => (.ok n : Except Unit Nat)) c.world d.world (some 0) := by
  have ran : (machine (fun n => (.ok n : Except Unit Nat)) "s").run (.initial Shard.empty)
      [.env ⟨0, 7⟩, .spawn 0 10, .step 0 {}, .step 0 {}, .step 0 {}] = some _ := rfl
  exact ⟨_, _, rfl, rfl, rfl, drainer_never_loses (Machine.reach_of_run ran)
    (rfl : Machine.step _ _ (.step 0 {}) = some _)⟩

end Mercado.Drainer
