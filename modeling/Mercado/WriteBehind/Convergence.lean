import Mercado.Async.Alone
import Mercado.Drainer.Settled
import Mercado.Storage.WriteOrder
import Mercado.WriteBehind.System

/-! The database catches up with Redis: once the entry of the last write to a key or field has been
taken off its stream, the database has seen the query of that write last. -/
namespace Mercado.WriteBehind
open Async Redis
open Storage (FieldValuePairs KvRouterStore Location Traits)

variable {S T σ δ π : Type} (traits : Traits S T σ) (store : KvRouterStore)

abbrev SystemConfig (S T σ δ : Type) :=
  Config (Command δ) (Reply δ) World (Call S σ) (Result T)

def Pending (c : SystemConfig S T σ δ) (location : Location) (client : Nat) : Prop :=
  (∃ call cmd k, c.procs client = .live call (.await cmd k)) ∧
    client ∈ Storage.writers location (kvLog c.world.log) ∧
    client ∉ Storage.pushers traits store location (kvLog c.world.log)

/-- No write takes effect at the key or field while the entry of another write to it is still to
come, and each stream has one drainer at a time. -/
def orderly (location : Location) (c : SystemConfig S T σ δ) :
    Action Choice String (Call S σ) → Prop
  | .step client o => ∀ call cmd k value,
    c.procs client = .live call (.await (.kv cmd) k) →
    (Storage.exec traits.globMatches client cmd o.kv ⟨c.world.keys, []⟩).2.log =
      [.wrote client location value] →
    ∀ other, other ≠ client → ¬ Pending traits store c location other
  | .spawn _ (.drainer stream _) => ∀ p maxReadCount cmd k,
    c.procs p ≠ .live (.drainer stream maxReadCount) (.await cmd k)
  | _ => True

variable {traits store} {fromHashmap : FieldValuePairs → Except π δ} {location : Location}

def storeRun (traits : Traits S T σ) (store : KvRouterStore)
    (fromHashmap : FieldValuePairs → Except π δ) (location : Location) :
    Simulation (system traits store fromHashmap) (orderly traits store location)
      (.initial .empty) (Storage.kvMachine traits store) (Storage.exclusive traits store location)
      (.initial Storage.World.empty) :=
  (storePart traits store fromHashmap).simulation
    ⟨Storage.World.empty.keys.streams, rfl, fun _ => rfl, rfl⟩
    (fun _ _ => trivial)
    (by
      intro c c' client o shown met call cmd k value live logged other differ pending
      obtain ⟨k', live'⟩ := (live ▸ shown.procs client).within
      obtain ⟨⟨call', cmd', next, awaits⟩, wrote, unpushed⟩ := pending
      obtain ⟨next', awaits'⟩ := (awaits ▸ shown.procs other).within
      obtain ⟨-, -, -, -, grown⟩ := shown.world.exec traits.globMatches client cmd o.kv
      obtain ⟨-, -, -, log⟩ := shown.world
      rw [List.append_nil] at log
      refine met _ cmd k' value live' ?_ other differ ⟨⟨_, _, next', awaits'⟩, ?_, ?_⟩
      · exact List.append_cancel_left (grown.symm.trans (logged.trans (by rw [log])))
      · rw [← log]
        exact wrote
      · rw [← log]
        exact unpushed)
    (fun _ _ => trivial) (fun _ _ => trivial)

def shardRun (traits : Traits S T σ) (store : KvRouterStore)
    (fromHashmap : FieldValuePairs → Except π δ) (location : Location) (stream : String) :
    Simulation (system traits store fromHashmap) (orderly traits store location) (.initial .empty)
      (Drainer.machine fromHashmap stream) Machine.oneAtATime
      (.initial Drainer.Shard.empty) :=
  (shardPart traits store fromHashmap stream).simulation rfl
    (by
      intro c c' p n shown met q m cmd k awaits
      obtain ⟨k', awaits'⟩ := (awaits ▸ shown.procs q).within
      exact met q m _ k' awaits')
    (fun _ _ => trivial) (fun _ _ => trivial) (fun _ _ => trivial)

/- The entries of a stream with their clients, in the order of the stream. -/

def pushes (stream : String) (log : List Storage.Event) : List (Nat × Entry FieldValuePairs) :=
  log.filterMap fun
    | .pushed client s entry => if s = stream then some (client, entry) else none
    | _ => none

theorem mem_pushes {stream : String} {log : List Storage.Event} {client : Nat}
    {entry : Entry FieldValuePairs} :
    (client, entry) ∈ pushes stream log ↔ .pushed client stream entry ∈ log := by
  refine List.mem_filterMap.trans ⟨?_, fun mem => ⟨_, mem, if_pos rfl⟩⟩
  rintro ⟨ev, mem, out⟩
  cases ev with
  | wrote | expired => cases out
  | pushed p s e =>
    by_cases same : s = stream
    · subst same
      simp only [if_true, Option.some.injEq, Prod.mk.injEq] at out
      obtain ⟨rfl, rfl⟩ := out
      exact mem
    · simp only [same, if_false] at out
      cases out

theorem appenders_pushes (stream : String) (log : List Storage.Event) :
    Storage.appenders stream log = (pushes stream log).map Prod.fst := by
  induction log with
  | nil => rfl
  | cons ev log ih =>
    rw [Storage.appenders, pushes] at ih ⊢
    cases ev with
    | wrote | expired => exact ih
    | pushed p s e =>
      by_cases same : s = stream
      · simp only [List.filterMap_cons, same, if_true, List.map_cons, ih]
      · simp only [List.filterMap_cons, same, if_false, ih]

theorem pushes_appended (stream : String) (log : List Event) :
    ((pushes stream (kvLog log)).map Prod.snd).Sublist
      (Drainer.appendedEntries (shardLog stream log)) := by
  induction log with
  | nil => exact .slnil
  | cons ev log ih =>
    rw [pushes, Drainer.appendedEntries] at ih ⊢
    match ev with
    | .kv (.wrote ..) | .kv (.expired ..) => exact ih
    | .kv (.pushed p s e) =>
      by_cases same : s = stream
      · simpa [kvLog, shardLog, Event.inShard, same] using ih
      · simpa [kvLog, shardLog, Event.inShard, same] using ih
    | .drainer s ev =>
      by_cases same : s = stream
      · simp only [kvLog, shardLog, List.filterMap_cons, Event.inShard, same, if_true] at ih ⊢
        split
        · exact ih
        · exact ih.cons _
      · simpa [kvLog, shardLog, Event.inShard, same] using ih

theorem pushed_appended {stream : String} {log : List Event} {client : Nat}
    {entry : Entry FieldValuePairs} (pushed : .pushed client stream entry ∈ kvLog log) :
    entry ∈ Drainer.appendedEntries (shardLog stream log) :=
  (pushes_appended stream log).subset (List.mem_map_of_mem (mem_pushes.mpr pushed))

theorem pushes_increasing {stream : String} {log : List Event}
    (sorted : (Drainer.appendedEntries (shardLog stream log)).Pairwise fun a b => a.id < b.id) :
    (pushes stream (kvLog log)).Pairwise fun a b => a.2.id < b.2.id := by
  have those := sorted.sublist (pushes_appended stream log)
  rw [List.pairwise_map] at those
  exact those

theorem last_entry {sorted : List (Nat × Entry FieldValuePairs)}
    (increasing : sorted.Pairwise fun a b => a.2.id < b.2.id) {mine : Nat → Bool}
    (distinct : ((sorted.map Prod.fst).filter mine).Nodup) {q p : Nat}
    {entry x : Entry FieldValuePairs}
    (last : ((sorted.map Prod.fst).filter mine).getLast? = some q) (here : (q, entry) ∈ sorted)
    (there : (p, x) ∈ sorted) (isMine : mine p = true) : x.id ≤ entry.id := by
  have own : mine q = true := (List.mem_filter.mp (List.mem_of_getLast? last)).2
  obtain ⟨front, back, rfl⟩ := List.append_of_mem here
  rcases List.mem_append.mp there with before | behind
  · exact Nat.le_of_lt ((List.pairwise_append.mp increasing).2.2 _ before _ List.mem_cons_self)
  · rcases List.mem_cons.mp behind with same | later
    · cases same
      exact Nat.le_refl _
    · have others : p ∈ (back.map Prod.fst).filter mine :=
        List.mem_filter.mpr ⟨List.mem_map_of_mem later, isMine⟩
      have split : (((front ++ (q, entry) :: back).map Prod.fst).filter mine) =
          (front.map Prod.fst).filter mine ++ q :: (back.map Prod.fst).filter mine := by
        rw [List.map_append, List.map_cons, List.filter_append, List.filter_cons_of_pos own]
      rw [split] at last distinct
      rw [List.getLast?_append_of_ne_nil _ (List.cons_ne_nil _ _),
        List.getLast?_cons_of_ne_nil (List.ne_nil_of_mem others)] at last
      have again := List.mem_of_getLast? last
      exact absurd again (List.nodup_cons.mp (List.nodup_append.mp distinct).2.1).1

variable {c : SystemConfig S T σ δ}

/-- Redis holds what this client has written, and of the entries for the location, which have all
been applied, that of the client has been executed last. -/
structure CaughtUp (traits : Traits S T σ) (store : KvRouterStore) (c : SystemConfig S T σ δ)
    (location : Location) (client : Nat) (entry : Entry FieldValuePairs) : Prop where
  value : ∃ value, .wrote client location value ∈ kvLog c.world.log ∧
    c.world.keys.read location = some value
  applied : ∃ before run r after,
    shardLog (Storage.streamOf traits store location.redisKey) c.world.log =
      before ++ .executed run entry r :: after ∧ r.processed = true ∧
    ∀ p ∈ Storage.writers location (kvLog c.world.log), ∀ x,
      .pushed p (Storage.streamOf traits store location.redisKey) x ∈ kvLog c.world.log →
      Drainer.Applied (shardLog (Storage.streamOf traits store location.redisKey) c.world.log) x ∧
      ∀ y ∈ Drainer.executions after, y.1 = x → x = entry

/-- Any number of clients and drainers, where the writes to a key or field do not overlap. When every
write to it has its entry, and the last of these entries is gone from the stream, the database has
caught up with Redis. -/
theorem database_catches_up
    (reached : Machine.Reach (system traits store fromHashmap) (orderly traits store location)
      (.initial .empty) c) {q : Nat} {entry : Entry FieldValuePairs}
    (all : ∀ p ∈ Storage.writers location (kvLog c.world.log),
      p ∈ Storage.pushers traits store location (kvLog c.world.log))
    (last : (Storage.writers location (kvLog c.world.log)).getLast? = some q)
    (unexpired : .expired location.redisKey ∉ kvLog c.world.log)
    (pushed : .pushed q (Storage.streamOf traits store location.redisKey) entry ∈
      kvLog c.world.log)
    (gone : entry ∉
      (c.world.keys.streams (Storage.streamOf traits store location.redisKey)).entries) :
    CaughtUp traits store c location q entry := by
  let stream := Storage.streamOf traits store location.redisKey
  obtain ⟨k, reachedK, shownK⟩ := (storeRun traits store fromHashmap location).reach reached
  obtain ⟨d, reachedD, shownD⟩ := (shardRun traits store fromHashmap location stream).reach reached
  have read : k.world.keys.read = c.world.keys.read := shownK.world.read
  have log : k.world.log = kvLog c.world.log := by
    obtain ⟨-, -, -, log⟩ := shownK.world
    exact log.trans (List.append_nil _)
  have shard : d.world = ⟨c.world.keys.streams stream, shardLog stream c.world.log⟩ := shownD.world
  have history : d.world.log = shardLog stream c.world.log := by rw [shard]
  have inStep := Storage.reach_inStep reachedK
  have ordered : Drainer.Ordered fromHashmap d.world :=
    ((Drainer.inSequence fromHashmap stream).sound reachedD).inv
  have settling := Drainer.reach_settling reachedD
  obtain ⟨distinct, order, -⟩ := inStep
  rw [log] at distinct order
  have same := order.eq_of_length_le (distinct.subperm all).length_le
  -- the entry of the last write is the last one of the location
  have increasing := pushes_increasing (history ▸ ordered.distinct)
  have behind : ∀ p ∈ Storage.writers location (kvLog c.world.log), ∀ x,
      .pushed p stream x ∈ kvLog c.world.log → x.id ≤ entry.id := by
    intro p mem x there
    rw [← same, Storage.pushers, appenders_pushes] at last distinct
    exact last_entry increasing distinct last (mem_pushes.mpr pushed) (mem_pushes.mpr there)
      (decide_eq_true mem)
  have appended : ∀ p x, .pushed p stream x ∈ kvLog c.world.log →
      x ∈ Drainer.appendedEntries d.world.log := by
    intro p x there
    rw [history]
    exact pushed_appended there
  have settled : ∀ p ∈ Storage.writers location (kvLog c.world.log), ∀ x,
      .pushed p stream x ∈ kvLog c.world.log → Drainer.Settled d.world.log x := by
    intro p mem x there
    refine settling.gone x (appended p x there) fun still => ?_
    have later := ordered.gone_before (appended q entry pushed) (shard ▸ gone) still
    exact absurd later (Nat.not_lt.mpr (behind p mem x there))
  obtain ⟨value, wrote, held⟩ : ∃ value, .wrote q location value ∈ kvLog c.world.log ∧
      c.world.keys.read location = some value := by
    obtain ⟨before, split⟩ := List.getLast?_eq_some_iff.mp last
    have recorded := (Storage.reach_recorded reachedK).value location
    rw [read, log] at recorded
    rw [recorded]
    exact Storage.valueAfter_last unexpired split
  refine ⟨⟨value, wrote, held⟩, ?_⟩
  obtain ⟨before, run, r, after, split, go, above⟩ :=
    settled q (List.mem_of_getLast? last) entry pushed
  rw [history] at split
  refine ⟨before, run, r, after, split, go, fun p mem x there => ⟨?_, ?_⟩⟩
  · obtain ⟨before', run', r', after', split', go', -⟩ := settled p mem x there
    rw [history] at split'
    exact ⟨run', r', by rw [split']; simp, go'⟩
  · rintro y executed rfl
    have ids : y.1.id = entry.id := Nat.le_antisymm (behind p mem y.1 there) (above y executed)
    have unique : ((Drainer.appendedEntries d.world.log).map Entry.id).Nodup :=
      List.pairwise_map.mpr (ordered.distinct.imp Nat.ne_of_lt)
    exact List.inj_on_of_nodup_map unique (appended p y.1 there) (appended q entry pushed) ids

theorem reach_orderly (traits : Traits S T σ) (store : KvRouterStore)
    (fromHashmap : FieldValuePairs → Except π δ) (location : Location)
    (choose : Command δ → World → Choice) (calls : List (Call S σ)) :
    ∃ c, Machine.Reach (system traits store fromHashmap) (orderly traits store location)
      (.initial .empty) c ∧
      c.world = ((system traits store fromHashmap).inTurn choose 0 calls .empty).2 := by
  refine Machine.reach_inTurn_quiet choose (fun _ _ => True) ?_ ?_ calls (fun _ _ => rfl)
    (Machine.quiet_initial World.empty) (Machine.each_of_all (fun _ _ => trivial) ..)
  · intro c p call quiet _
    cases call with
    | kv => trivial
    | drainer => exact fun q _ cmd k => quiet q _ cmd k
  · rintro c p x w o quiet _ _ _ _ _ _ other differ ⟨⟨call, cmd, k, live⟩, _⟩
    rw [Config.setProc_other differ] at live
    exact quiet other call cmd k live

/-- Two clients write a field, and a drainer takes both entries over. -/
theorem database_catches_up_twice : ∃ c : SystemConfig String String String FieldValuePairs,
    c.world.keys.read (.inHash "k" "f") = some "2" ∧
    CaughtUp Storage.textTraits Storage.textStore c (.inHash "k" "f") 1
      ⟨2, [("typed_sql", "sql2"), ("global_id", "k"), ("request_id", ""), ("pushed_at", "0")]⟩ := by
  obtain ⟨c, reached, world⟩ := reach_orderly Storage.textTraits Storage.textStore
    (fun fields => (.ok fields : Except Unit FieldValuePairs)) (.inHash "k" "f") (fun _ _ => {})
    [.kv ⟨.hset "f" "1" "sql1", "k"⟩, .kv ⟨.hset "f" "2" "sql2", "k"⟩,
      .drainer (Storage.streamOf Storage.textTraits Storage.textStore "k") 10]
  refine ⟨c, ?_, database_catches_up reached ?_ ?_ ?_ ?_ ?_⟩ <;> rw [world]
  · rfl
  · decide
  · decide
  · decide
  · decide
  · decide

end Mercado.WriteBehind
