import Mercado.Async.Part
import Mercado.Drainer.Handler
import Mercado.Storage.KvStore

/-! The key-value store and its drainers on one Redis: the clients write to Redis and append their
queries to the streams, and the drainers carry the queries over to the database. -/
namespace Mercado.WriteBehind
open Async Redis
open Storage (FieldValuePairs KvResult KvRouterStore Traits)

inductive Command (δ : Type) where
  | kv (c : Storage.Command)
  | drainer (stream : String) (c : Drainer.Command FieldValuePairs δ)

abbrev Reply (δ : Type) : Command δ → Type
  | .kv c => Storage.Reply c
  | .drainer _ c => Drainer.Reply FieldValuePairs δ c

inductive Event where
  | kv (ev : Storage.Event)
  | drainer (stream : String) (ev : Drainer.Event FieldValuePairs)

/-- Redis, and everything that has happened to it and to the database, in order. -/
structure World where
  keys : Storage.Keyspace
  log : List Event

def World.empty : World := ⟨Storage.World.empty.keys, []⟩

def kvLog (log : List Event) : List Storage.Event :=
  log.filterMap fun
    | .kv ev => some ev
    | .drainer .. => none

def Event.inShard (stream : String) : Event → Option (Drainer.Event FieldValuePairs)
  | .kv (.pushed _ s entry) => if s = stream then some (.appended entry) else none
  | .kv _ => none
  | .drainer s ev => if s = stream then some ev else none

def shardLog (stream : String) (log : List Event) : List (Drainer.Event FieldValuePairs) :=
  log.filterMap (Event.inShard stream)

@[simp] theorem kvLog_append (log more : List Event) :
    kvLog (log ++ more) = kvLog log ++ kvLog more := List.filterMap_append

@[simp] theorem shardLog_append (stream : String) (log more : List Event) :
    shardLog stream (log ++ more) = shardLog stream log ++ shardLog stream more :=
  List.filterMap_append

@[simp] theorem kvLog_kv (more : List Storage.Event) : kvLog (more.map .kv) = more := by
  induction more with
  | nil => rfl
  | cons ev more ih => exact congrArg (ev :: ·) ih

@[simp] theorem kvLog_drainer (stream : String) (more : List (Drainer.Event FieldValuePairs)) :
    kvLog (more.map (.drainer stream)) = [] := by
  induction more with
  | nil => rfl
  | cons ev more ih => exact ih

@[simp] theorem shardLog_own (stream : String) (more : List (Drainer.Event FieldValuePairs)) :
    shardLog stream (more.map (.drainer stream)) = more := by
  induction more with
  | nil => rfl
  | cons ev more ih =>
    simp only [shardLog, List.map_cons, List.filterMap_cons, Event.inShard, if_true]
    exact congrArg (ev :: ·) ih

theorem shardLog_other {stream other : String} (differ : other ≠ stream)
    (more : List (Drainer.Event FieldValuePairs)) :
    shardLog stream (more.map (.drainer other)) = [] := by
  induction more with
  | nil => rfl
  | cons ev more ih =>
    simp only [shardLog, List.map_cons, List.filterMap_cons, Event.inShard, differ, if_false]
    exact ih

structure Choice where
  kv : Storage.Choice := {}
  drainer : Drainer.Choice := {}

inductive Call (S σ : Type) where
  | kv (call : Storage.Call S σ)
  | drainer (stream : String) (maxReadCount : Nat)

inductive Result (T : Type) where
  | kv (r : Except RedisError (KvResult T))
  | drainer (r : Except Drainer.DrainerError Unit)

variable {S T σ δ π : Type}

def exec (globMatches : String → String → Bool) (p : Nat) :
    (c : Command δ) → Choice → World → Reply δ c × World
  | .kv c, o, w =>
    let x := Storage.exec globMatches p c o.kv ⟨w.keys, []⟩
    (x.1, ⟨x.2.keys, w.log ++ x.2.log.map .kv⟩)
  | .drainer stream c, o, w =>
    let x := Drainer.exec p c o.drainer ⟨w.keys.streams stream, []⟩
    (x.1, ⟨{ w.keys with streams := Function.update w.keys.streams stream x.2.stream },
      w.log ++ x.2.log.map (.drainer stream)⟩)

/-- Any number of clients of one store, and drainers of its streams. -/
def system (traits : Traits S T σ) (store : KvRouterStore)
    (fromHashmap : FieldValuePairs → Except π δ) :
    Machine (Command δ) (Reply δ) World Choice String (Call S σ) (Result T) where
  exec := exec traits.globMatches
  env := fun key w => some ⟨w.keys.drop key, w.log ++ [.kv (.expired key)]⟩
  program
    | .kv call =>
      (Storage.kvWrapper traits store call.op call.key).run.within Command.kv (fun _ r => r) .kv
    | .drainer stream maxReadCount =>
      (Drainer.drainer fromHashmap maxReadCount stream).within (Command.drainer stream)
        (fun _ r => r) .drainer

/- The store. It sees everything but what the drainers take off the streams. -/

/-- The same Redis but for entries that are gone from the streams, with this history. -/
def Alike (past : List Storage.Event) (w w' : Storage.World) : Prop :=
  ∃ streams, w'.keys = { w.keys with streams := streams } ∧
    (∀ s, (streams s).lastId = (w.keys.streams s).lastId) ∧ w'.log = past ++ w.log

section Alike

variable {past : List Storage.Event} {w w' : Storage.World}

theorem Alike.read (alike : Alike past w w') : w'.keys.read = w.keys.read := by
  obtain ⟨streams, keys, -, -⟩ := alike
  rw [keys]
  rfl

theorem Alike.write (alike : Alike past w w') (client : Nat) (location : Storage.Location)
    (value : String) :
    Alike past (w.write client location value) (w'.write client location value) := by
  obtain ⟨streams, keys, ids, log⟩ := alike
  refine ⟨streams, ?_, ?_, ?_⟩
  · rw [Storage.World.write, keys]
    cases location <;> rfl
  · cases location <;> exact ids
  · rw [Storage.World.write, log, List.append_assoc]
    rfl

theorem Alike.drop (alike : Alike past w w') (key : String) :
    Alike past (w.drop key) (w'.drop key) := by
  obtain ⟨streams, keys, ids, log⟩ := alike
  refine ⟨streams, ?_, ids, ?_⟩
  · rw [Storage.World.drop, keys]
    rfl
  · rw [Storage.World.drop, log, List.append_assoc]
    rfl

theorem Alike.setTtl (alike : Alike past w w') (key : String) (seconds : Nat) :
    Alike past { w with keys := w.keys.setTtl key seconds }
      { w' with keys := w'.keys.setTtl key seconds } := by
  obtain ⟨streams, keys, ids, log⟩ := alike
  exact ⟨streams, by rw [keys]; rfl, ids, log⟩

theorem Alike.expire (alike : Alike past w w') (key : String) (seconds : Nat) :
    Alike past (w.expire key seconds) (w'.expire key seconds) := by
  by_cases zero : seconds = 0
  · simp only [Storage.World.expire, zero, if_true]
    exact alike.drop key
  · simp only [Storage.World.expire, zero, if_false]
    exact alike.setTtl key seconds

theorem Alike.writeIfNotExists (alike : Alike past w w') (client : Nat)
    (location : Storage.Location) (value : String) :
    Alike past (w.writeIfNotExists client location value)
      (w'.writeIfNotExists client location value) := by
  rw [Storage.World.writeIfNotExists, Storage.World.writeIfNotExists, alike.read]
  split
  · exact alike
  · exact alike.write client location value

theorem Alike.setNxEx (alike : Alike past w w') (client : Nat) (key value : String)
    (seconds : Nat) : Alike past (w.setNxEx client key value seconds)
      (w'.setNxEx client key value seconds) := by
  rw [Storage.World.setNxEx, Storage.World.setNxEx, alike.read]
  split
  · exact alike
  · exact (alike.write client (.plain key) value).setTtl key seconds

theorem Alike.sadd (alike : Alike past w w') (key : String) (members : List String) :
    Alike past (w.sadd key members) (w'.sadd key members) := by
  obtain ⟨streams, keys, ids, log⟩ := alike
  exact ⟨streams, by rw [Storage.World.sadd, keys]; rfl, ids, log⟩

theorem Alike.xadd (alike : Alike past w w') (client : Nat) (stream : String) (gap : Nat)
    (fields : FieldValuePairs) :
    Alike past (w.xadd client stream gap fields) (w'.xadd client stream gap fields) := by
  obtain ⟨streams, keys, ids, log⟩ := alike
  refine ⟨Function.update streams stream ((streams stream).xadd gap fields), ?_, fun s => ?_, ?_⟩
  · rw [Storage.World.xadd, keys]
    rfl
  · by_cases same : s = stream
    · subst same
      simp [Storage.World.xadd, Storage.Keyspace.append, ids]
    · simp [Storage.World.xadd, Storage.Keyspace.append, same, ids]
  · have added : (w'.keys.streams stream).added gap fields =
        (w.keys.streams stream).added gap fields := by
      rw [keys, Stream.added, ids, Stream.added]
    rw [Storage.World.xadd, log, added, List.append_assoc]
    rfl

theorem Alike.through {ε α : Type} (alike : Alike past w w') (d : Delivery) (err : ε) {a a' : α}
    {u u' : Storage.World} (same : a = a') (after : Alike past u u') :
    (d.through err w (a, u)).1 = (d.through err w' (a', u')).1 ∧
      Alike past (d.through err w (a, u)).2 (d.through err w' (a', u')).2 := by
  cases d with
  | answered => exact ⟨congrArg Except.ok same, after⟩
  | lost => exact ⟨rfl, alike⟩
  | unanswered => exact ⟨rfl, after⟩

theorem Alike.exec (alike : Alike past w w') (globMatches : String → String → Bool) (p : Nat)
    (c : Storage.Command) (o : Storage.Choice) :
    (Storage.exec globMatches p c o w).1 = (Storage.exec globMatches p c o w').1 ∧
      Alike past (Storage.exec globMatches p c o w).2 (Storage.exec globMatches p c o w').2 := by
  have read := alike.read
  have members : ∀ key ms, w'.keys.newMembers key ms = w.keys.newMembers key ms ∧
      w'.keys.hashes key = w.keys.hashes key := by
    obtain ⟨streams, keys, -, -⟩ := alike
    intro key ms
    rw [keys]
    exact ⟨rfl, rfl⟩
  cases c with
  | isRedisAvailable | nowUnixTimestamp => exact ⟨rfl, alike⟩
  | hset key field value => exact alike.through _ _ rfl (alike.write ..)
  | hsetnx key field value =>
    exact alike.through _ _ (by rw [read]) (alike.writeIfNotExists ..)
  | setNxEx key value seconds =>
    simp only [Storage.exec]
    split
    · exact ⟨rfl, alike⟩
    · exact alike.through _ _ (by rw [read]) (alike.setNxEx ..)
  | expire key seconds => exact alike.through _ _ rfl (alike.expire ..)
  | sadd key ms =>
    simp only [Storage.exec]
    split
    · exact ⟨rfl, alike⟩
    · exact alike.through _ _ (by rw [(members key ms).1]) (alike.sadd ..)
  | xadd stream fields => exact alike.through _ _ rfl (alike.xadd ..)
  | hget key field => exact alike.through _ _ (by rw [read]) alike
  | get key => exact alike.through _ _ (by rw [read]) alike
  | hscan key pattern => exact alike.through _ _ (by rw [(members key []).2]) alike

end Alike

theorem drainer_lastId (p : Nat) (c : Drainer.Command FieldValuePairs δ) (o : Drainer.Choice)
    (w : Drainer.Shard FieldValuePairs) :
    (Drainer.exec p c o w).2.stream.lastId = w.stream.lastId := by
  cases c with
  | executeQuery | assertionFailed => rfl
  | streamReadEntries | streamTrimEntries | streamDeleteEntries =>
    cases h : o.redis <;> simp [Drainer.exec, h, Delivery.through, Stream.xtrimMinId, Stream.xdel]

theorem within_every {C C' : Type} {R : C → Type} {R' : C' → Type} {α γ : Type} {command : C' → C}
    {reply : (c : C') → R (command c) → R' c} {result : α → γ} {A : C → Prop}
    (all : ∀ c, A (command c)) (t : Task C' R' α) : (t.within command reply result).every A := by
  induction t with
  | done a => trivial
  | await c k ih => exact ⟨all c, fun r => ih _⟩

section Parts

variable (traits : Traits S T σ) (store : KvRouterStore)
  (fromHashmap : FieldValuePairs → Except π δ)

def storePart : Part (system traits store fromHashmap) (Storage.kvMachine traits store) where
  command := .kv
  reply := fun _ r => r
  result := .kv
  call := .kv
  choice := Choice.kv
  program := fun _ => rfl
  sees := fun w w' => Alike (kvLog w.log) ⟨w.keys, []⟩ w'
  foreign := fun c => ∀ x, c ≠ .kv x
  others := by
    intro a other
    cases a with
    | kv call => exact absurd rfl (other call)
    | drainer stream n => exact within_every (fun _ => nofun) _
  own := by
    intro w w' alike p c o
    obtain ⟨replied, streams, keys, ids, log⟩ := alike.exec traits.globMatches p c o.kv
    refine ⟨replied, streams, keys, ids, ?_⟩
    simp only [system, exec, kvLog_append, kvLog_kv, List.append_nil]
    exact log
  moves := by
    intro w w' c alike other p o
    cases c with
    | kv x => exact absurd rfl (other x)
    | drainer stream c =>
      obtain ⟨streams, keys, ids, log⟩ := alike
      refine ⟨w', .inl rfl, streams, keys, fun s => ?_, ?_⟩
      · rw [ids s]
        by_cases same : s = stream
        · subst same
          simp [system, exec, drainer_lastId]
        · simp [system, exec, same]
      · simpa [system, exec] using log
  env := by
    rintro w w' t key alike ⟨⟩
    obtain ⟨streams, keys, ids, log⟩ := alike
    refine ⟨w'.drop key, .inr ⟨key, rfl⟩, streams, ?_, ids, ?_⟩
    · rw [Storage.World.drop, keys]
      rfl
    · rw [Storage.World.drop, log]
      simp [kvLog]

theorem drainer_past (p : Nat) (c : Drainer.Command FieldValuePairs δ) (o : Drainer.Choice)
    (stream : Stream FieldValuePairs) (past : List (Drainer.Event FieldValuePairs)) :
    Drainer.exec p c o ⟨stream, past⟩ = ((Drainer.exec p c o ⟨stream, []⟩).1,
      ⟨(Drainer.exec p c o ⟨stream, []⟩).2.stream,
        past ++ (Drainer.exec p c o ⟨stream, []⟩).2.log⟩) := by
  cases c with
  | executeQuery | assertionFailed => rfl
  | streamReadEntries | streamTrimEntries | streamDeleteEntries =>
    cases h : o.redis <;> simp [Drainer.exec, h, Delivery.through]

def Unseen (stream : String) (keys : Storage.Keyspace) (w : Storage.World) : Prop :=
  w.keys.streams stream = keys.streams stream ∧ shardLog stream (w.log.map .kv) = []

theorem Unseen.through {stream : String} {keys : Storage.Keyspace} {ε α : Type} (d : Delivery)
    (err : ε) {x : α × Storage.World} (unseen : Unseen stream keys x.2) :
    Unseen stream keys (d.through err ⟨keys, []⟩ x).2 := by
  cases d with
  | answered | unanswered => exact unseen
  | lost => exact ⟨rfl, rfl⟩

theorem store_appends (globMatches : String → String → Bool) (p : Nat) (c : Storage.Command)
    (o : Storage.Choice) (keys : Storage.Keyspace) (stream : String) :
    Unseen stream keys (Storage.exec globMatches p c o ⟨keys, []⟩).2 ∨
    ∃ gap fields, (Storage.exec globMatches p c o ⟨keys, []⟩).2.keys.streams stream =
        (keys.streams stream).xadd gap fields ∧
      shardLog stream ((Storage.exec globMatches p c o ⟨keys, []⟩).2.log.map .kv) =
        [.appended ((keys.streams stream).added gap fields)] := by
  have nothing : Unseen stream keys ⟨keys, []⟩ := ⟨rfl, rfl⟩
  have written : ∀ location value, Unseen stream keys
      (Storage.World.write ⟨keys, []⟩ p location value) := by
    intro location value
    cases location <;> exact ⟨rfl, rfl⟩
  cases c with
  | isRedisAvailable | nowUnixTimestamp => exact .inl nothing
  | hset key field value => exact .inl (.through _ _ (written ..))
  | hsetnx key field value =>
    refine .inl (.through _ _ ?_)
    rw [Storage.World.writeIfNotExists]
    split
    · exact nothing
    · exact written ..
  | setNxEx key value seconds =>
    simp only [Storage.exec]
    split
    · exact .inl nothing
    · refine .inl (.through _ _ ?_)
      rw [Storage.World.setNxEx]
      split
      · exact nothing
      · exact written (.plain key) value
  | expire key seconds =>
    refine .inl (.through _ _ ?_)
    rw [Storage.World.expire]
    split <;> exact ⟨rfl, rfl⟩
  | sadd key members =>
    simp only [Storage.exec]
    split
    · exact .inl nothing
    · exact .inl (.through _ _ nothing)
  | hget | get | hscan => exact .inl (.through _ _ nothing)
  | xadd s fields =>
    by_cases same : s = stream
    · subst same
      have grown : ∃ gap fields', (keys.append s o.gap fields).streams s =
            (keys.streams s).xadd gap fields' ∧
          shardLog s [.kv (.pushed p s ((keys.streams s).added o.gap fields))] =
            [.appended ((keys.streams s).added gap fields')] :=
        ⟨o.gap, fields, by simp [Storage.Keyspace.append], by simp [shardLog, Event.inShard]⟩
      cases h : o.redis with
      | answered | unanswered =>
        simp only [Storage.exec, h, Delivery.through]
        exact .inr grown
      | lost =>
        simp only [Storage.exec, h, Delivery.through]
        exact .inl nothing
    · refine .inl (.through _ _ ⟨?_, ?_⟩)
      · simp [Storage.World.xadd, Storage.Keyspace.append, Ne.symm same]
      · simp [Storage.World.xadd, shardLog, Event.inShard, same]

def shardPart (stream : String) : Part (system traits store fromHashmap)
    (Drainer.machine fromHashmap stream) where
  command := .drainer stream
  reply := fun _ r => r
  result := .drainer
  call := .drainer stream
  choice := Choice.drainer
  program := fun _ => rfl
  sees := fun w w' => w' = ⟨w.keys.streams stream, shardLog stream w.log⟩
  foreign := fun c => ∀ x, c ≠ .drainer stream x
  others := by
    intro a other
    cases a with
    | kv call => exact within_every (fun _ => nofun) _
    | drainer s n =>
      refine within_every (fun _ => ?_) _
      rintro x ⟨⟩
      exact other n rfl
  own := by
    rintro w _ rfl p c o
    have past := drainer_past p c o.drainer (w.keys.streams stream) (shardLog stream w.log)
    refine ⟨congrArg Prod.fst past.symm, (congrArg Prod.snd past).trans ?_⟩
    simp [system, exec]
  moves := by
    rintro w _ c rfl other p o
    cases c with
    | kv c =>
      rcases store_appends traits.globMatches p c o.kv w.keys stream with ⟨same, silent⟩ |
        ⟨gap, fields, grown, logged⟩
      · exact ⟨_, .inl rfl, by simp [system, exec, same, silent]⟩
      · exact ⟨_, .inr ⟨⟨gap, fields⟩, rfl⟩, by simp [system, exec, grown, logged]⟩
    | drainer s c =>
      have differ : s ≠ stream := by
        rintro rfl
        exact other c rfl
      exact ⟨_, .inl rfl, by simp [system, exec, shardLog_other differ, Ne.symm differ]⟩
  env := by
    rintro w _ t key rfl ⟨⟩
    exact ⟨_, .inl rfl, by simp [shardLog, Event.inShard, Storage.Keyspace.drop]⟩

end Parts

end Mercado.WriteBehind
