import Mercado.Drainer.Fleet
import Mercado.Numerals
import Mercado.Storage.KvStore

/-! Where the clients of the key-value store append their entries, and where the drainer
looks for them. The keys are built in two crates from a name and a number of partitions. -/
namespace Mercado.Drainer.Fleet
open Async Redis Storage

variable {φ δ : Type} {conf : DrainerSettings}

/- The indices that the loop goes through. -/

def visitedIndex (conf : DrainerSettings) : Nat → UInt8
  | 0 => 0
  | round + 1 => incrementStreamIndex (visitedIndex conf round) conf.numPartitions

theorem incrementStreamIndex_toNat {index total : UInt8} (below : index < total) :
    (incrementStreamIndex index total).toNat = (index.toNat + 1) % total.toNat := by
  have bound : index.toNat < total.toNat := UInt8.lt_iff_toNat_lt.mp below
  have small : total.toNat < 256 := total.toNat_lt
  have last : (total - 1).toNat = total.toNat - 1 :=
    UInt8.toNat_sub_of_le _ _ (UInt8.le_iff_toNat_le.mpr (by simp; omega))
  unfold incrementStreamIndex
  split
  · rename_i same
    have wraps : index.toNat + 1 = total.toNat := by
      rw [same, last]
      omega
    rw [wraps, Nat.mod_self]
    rfl
  · rename_i differ
    have inside : index.toNat + 1 < total.toNat := by
      have := mt UInt8.toNat_inj.mp differ
      omega
    rw [Nat.mod_eq_of_lt inside, UInt8.toNat_add]
    simp only [UInt8.toNat_one]
    omega

theorem visitedIndex_toNat (positive : 0 < conf.numPartitions) (round : Nat) :
    (visitedIndex conf round).toNat = round % conf.numPartitions.toNat := by
  have bound : 0 < conf.numPartitions.toNat := UInt8.lt_iff_toNat_lt.mp positive
  induction round with
  | zero => simp [visitedIndex]
  | succ round ih =>
    have below : visitedIndex conf round < conf.numPartitions := by
      rw [UInt8.lt_iff_toNat_lt, ih]
      exact Nat.mod_lt _ bound
    rw [visitedIndex, incrementStreamIndex_toNat below, ih, Nat.mod_add_mod]

theorem visitedIndex_range (positive : 0 < conf.numPartitions) (i : UInt8) :
    (∃ round, visitedIndex conf round = i) ↔ i < conf.numPartitions := by
  have bound : 0 < conf.numPartitions.toNat := UInt8.lt_iff_toNat_lt.mp positive
  constructor
  · rintro ⟨round, rfl⟩
    rw [UInt8.lt_iff_toNat_lt, visitedIndex_toNat positive]
    exact Nat.mod_lt _ bound
  · intro below
    refine ⟨i.toNat, UInt8.toNat_inj.mp ?_⟩
    rw [visitedIndex_toNat positive, Nat.mod_eq_of_lt (UInt8.lt_iff_toNat_lt.mp below)]

def Visiting (conf : DrainerSettings) (cmd : Command φ δ) : Prop :=
  (∀ h key value seconds, cmd = .setNxEx h key value seconds →
    ∃ round, key = getStreamKeyFlag conf (visitedIndex conf round)) ∧
  ∀ h i, cmd = .spawnTask h i → ∃ round, i = visitedIndex conf round

theorem isStreamAvailable_visits (handler round : Nat) :
    (isStreamAvailable conf handler (visitedIndex conf round) : FleetTask φ δ Bool).every
      (Visiting conf) := by
  unfold isStreamAvailable setKeyIfNotExistsWithExpiry
  refine Task.every_bind (Task.every_bind (Task.every_call ⟨?_, nofun⟩) fun _ => trivial) ?_
  · rintro h key value seconds ⟨⟩
    exact ⟨round, rfl⟩
  · intro reply
    cases reply <;> trivial

theorem spawn_visits (handler rounds round : Nat) :
    (spawn conf handler rounds (visitedIndex conf round) :
      FleetTask φ δ (Except DrainerError Unit)).every (Visiting conf) := by
  induction rounds generalizing round with
  | zero => trivial
  | succ rounds ih =>
    have rest := ih (round + 1)
    refine ⟨⟨nofun, nofun⟩, fun running => ?_⟩
    cases running with
    | false => trivial
    | true =>
      change Task.every _ ((isStreamAvailable conf handler (visitedIndex conf round)).bind _)
      refine Task.every_bind (isStreamAvailable_visits handler round) fun available => ?_
      cases available with
      | false => exact rest
      | true =>
        refine ⟨⟨nofun, ?_⟩, fun _ => rest⟩
        rintro h i ⟨⟩
        exact ⟨round, rfl⟩

theorem spawn_asks {handler rounds later : Nat} (round : Nat) (watched : later < rounds) :
    (spawn conf handler rounds (visitedIndex conf round) :
      FleetTask φ δ (Except DrainerError Unit)).may fun cmd =>
        cmd = .setNxEx handler (getStreamKeyFlag conf (visitedIndex conf (round + later))) "true"
          conf.defaultTtl := by
  induction later generalizing rounds round with
  | zero =>
    obtain ⟨rounds, rfl⟩ := Nat.exists_eq_succ_of_ne_zero (Nat.ne_of_gt watched)
    exact .inr ⟨true, .inl rfl⟩
  | succ later ih =>
    obtain ⟨rounds, rfl⟩ := Nat.exists_eq_succ_of_ne_zero (Nat.ne_of_gt (Nat.zero_lt_of_lt watched))
    have rest := ih (round + 1) (Nat.lt_of_succ_lt_succ watched)
    rw [Nat.add_right_comm, Nat.add_assoc] at rest
    exact .inr ⟨true, .inr ⟨.error (), rest⟩⟩

/- The keys. Up to its first closing brace a key tells the shard. -/

theorem streamName_toList (conf : DrainerSettings) (i : UInt8) :
    (getDrainerStreamName conf i).toList =
      ("\x7bshard_".toList ++ i.toNat.repr.toList) ++ '\x7d' :: ("_" ++ conf.streamName).toList := by
  have digits : toString i = i.toNat.repr := rfl
  simp [getDrainerStreamName, drainerStream, digits]

theorem flag_toList (conf : DrainerSettings) (i : UInt8) :
    (getStreamKeyFlag conf i).toList =
      ("\x7bshard_".toList ++ i.toNat.repr.toList) ++
        '\x7d' :: ("_" ++ conf.streamName ++ "_in_use").toList := by
  rw [getStreamKeyFlag, String.toList_append, streamName_toList]
  simp

theorem shard_delimited (i : UInt8) : '\x7d' ∉ "\x7bshard_".toList ++ i.toNat.repr.toList := by
  intro mem
  rcases List.mem_append.mp mem with mem | mem
  · revert mem
    decide
  · exact absurd (isDigit_of_mem_repr mem) (by decide)

theorem before_delimiter {α : Type} {a : α} {xs ys rest rest' : List α} (hx : a ∉ xs) (hy : a ∉ ys)
    (same : xs ++ a :: rest = ys ++ a :: rest') : xs = ys ∧ rest = rest' := by
  induction xs generalizing ys with
  | nil =>
    cases ys with
    | nil => exact ⟨rfl, (List.cons.inj same).2⟩
    | cons y ys => exact absurd ((List.cons.inj same).1 ▸ List.mem_cons_self) hy
  | cons x xs ih =>
    cases ys with
    | nil => exact absurd ((List.cons.inj same).1 ▸ List.mem_cons_self) hx
    | cons y ys =>
      obtain ⟨rfl, tails⟩ := List.cons.inj same
      obtain ⟨rfl, rests⟩ := ih (mt (List.mem_cons_of_mem _) hx) (mt (List.mem_cons_of_mem _) hy) tails
      exact ⟨rfl, rests⟩

theorem shard_injective {i j : UInt8} {rest rest' : List Char}
    (same : ("\x7bshard_".toList ++ i.toNat.repr.toList) ++ '\x7d' :: rest =
      ("\x7bshard_".toList ++ j.toNat.repr.toList) ++ '\x7d' :: rest') : i = j ∧ rest = rest' := by
  obtain ⟨before, after⟩ := before_delimiter (shard_delimited i) (shard_delimited j) same
  have digits := String.toList_inj.mp (List.append_cancel_left before)
  exact ⟨UInt8.toNat_inj.mp (repr_injective digits), after⟩

theorem streamName_injective {i j : UInt8}
    (same : getDrainerStreamName conf i = getDrainerStreamName conf j) : i = j := by
  have lists := congrArg String.toList same
  rw [streamName_toList, streamName_toList] at lists
  exact (shard_injective lists).1

theorem flag_injective {i j : UInt8}
    (same : getStreamKeyFlag conf i = getStreamKeyFlag conf j) : i = j := by
  have lists := congrArg String.toList same
  rw [flag_toList, flag_toList] at lists
  exact (shard_injective lists).1

theorem flag_not_stream (i j : UInt8) : getStreamKeyFlag conf i ≠ getDrainerStreamName conf j := by
  intro same
  have lists := congrArg String.toList same
  rw [flag_toList, streamName_toList] at lists
  have lengths := congrArg List.length (shard_injective lists).2
  simp at lengths

/- The clients. -/

/-- Entries appended to this stream belong to exactly one of the shards visited. -/
def Routed (conf : DrainerSettings) (cmd : Storage.Command) : Prop :=
  ∀ stream fields, cmd = .xadd stream fields →
    ∃! i, (∃ round, visitedIndex conf round = i) ∧ getDrainerStreamName conf i = stream

section Clients

variable {S T σ : Type} (traits : Traits S T σ) {store : KvRouterStore}

theorem shard_routed (sameName : store.drainerStreamName = conf.streamName)
    (samePartitions : store.drainerNumPartitions = conf.numPartitions.toNat)
    (positive : 0 < conf.numPartitions) (key : PartitionKey) (fields : FieldValuePairs) :
    Routed conf (.xadd (Storage.getDrainerStreamName store
      (shardKey traits key store.drainerNumPartitions)) fields) := by
  have bound : 0 < conf.numPartitions.toNat := UInt8.lt_iff_toNat_lt.mp positive
  have below : partitionNumber traits key store.drainerNumPartitions < conf.numPartitions.toNat := by
    rw [samePartitions]
    exact Nat.mod_lt _ bound
  let shard := UInt8.ofNat (partitionNumber traits key store.drainerNumPartitions)
  have byte : shard.toNat = partitionNumber traits key store.drainerNumPartitions :=
    UInt8.toNat_ofNat_of_lt' (Nat.lt_trans below conf.numPartitions.toNat_lt)
  have found : getDrainerStreamName conf shard = Storage.getDrainerStreamName store
      (shardKey traits key store.drainerNumPartitions) := by
    have digits : toString shard =
        toString (partitionNumber traits key store.drainerNumPartitions) := congrArg toString byte
    rw [getDrainerStreamName, drainerStream, digits, Storage.getDrainerStreamName, shardKey, sameName]
  rintro stream _ ⟨⟩
  refine ⟨shard, ⟨?_, found⟩, fun j visited => streamName_injective (visited.2.trans found.symm)⟩
  rw [visitedIndex_range positive, UInt8.lt_iff_toNat_lt, byte]
  exact below

theorem pushToDrainerStream_routed (sameName : store.drainerStreamName = conf.streamName)
    (samePartitions : store.drainerNumPartitions = conf.numPartitions.toNat)
    (positive : 0 < conf.numPartitions) (sql : σ) (key : PartitionKey) :
    (pushToDrainerStream traits store sql key).run.every (Routed conf) := by
  refine Task.every_tryBind (Task.every_lift (Task.every_call nofun)) fun now => ?_
  refine Task.every_tryBind trivial fun fields => ?_
  exact Task.every_changeContext
    (Task.every_call (shard_routed traits sameName samePartitions positive key fields))

theorem setExpiry_routed (key : String) (seconds : Nat) :
    (setExpiry key seconds).run.every (Routed conf) :=
  Task.every_changeContext (Task.every_call nofun)

theorem checkForConstraints_routed (value : S) :
    (checkForConstraints traits value).run.every (Routed conf) := by
  refine Task.every_tryBind (Task.every_changeContext
    (Task.every_bind (Task.every_call nofun) fun _ => trivial)) fun reply => ?_
  cases reply <;> trivial

theorem deserialized_routed (value : Option String) :
    (deserialized traits value).run.every (Routed conf) := by
  unfold deserialized
  split <;> trivial

theorem kvWrapper_routed (sameName : store.drainerStreamName = conf.streamName)
    (samePartitions : store.drainerNumPartitions = conf.numPartitions.toNat)
    (positive : 0 < conf.numPartitions) (op : KvOperation S σ) (key : String) :
    (kvWrapper traits store op key).run.every (Routed conf) := by
  have push : ∀ (sql : σ) (result : KvResult T), (do
      pushToDrainerStream traits store sql (.merchantIdPaymentIdCombination key)
      return result : Kv (KvResult T)).run.every (Routed conf) := fun sql result =>
    Task.every_tryBind (pushToDrainerStream_routed traits sameName samePartitions positive sql _)
      fun _ => trivial
  refine Task.every_tryBind (Task.every_tryBind (Task.every_lift (Task.every_call nofun))
    fun available => by cases available <;> trivial) fun _ => ?_
  cases op with
  | hset field value sql =>
    exact Task.every_tryBind (Task.every_tryBind (Task.every_changeContext (Task.every_call nofun))
      fun _ => setExpiry_routed key _) fun _ => push sql _
  | setNx value sql =>
    refine Task.every_tryBind (Task.every_tryBind trivial fun serialized => Task.every_changeContext
      (Task.every_bind (Task.every_call nofun) fun _ => trivial)) fun reply => ?_
    refine Task.every_tryBind (checkForConstraints_routed traits value) fun _ => ?_
    cases reply with
    | keySet => exact push sql _
    | keyNotSet => trivial
  | hSetNx field value sql =>
    refine Task.every_tryBind (checkForConstraints_routed traits value) fun _ => ?_
    refine Task.every_tryBind (Task.every_tryBind trivial fun serialized => Task.every_tryBind
      (Task.every_changeContext (Task.every_bind (Task.every_call nofun) fun _ => trivial))
      fun _ => Task.every_tryBind (setExpiry_routed key _) fun _ => trivial) fun reply => ?_
    cases reply with
    | keySet => exact push sql _
    | keyNotSet => trivial
  | hGet field =>
    exact Task.every_tryBind (Task.every_tryBind (Task.every_changeContext (Task.every_call nofun))
      fun _ => deserialized_routed traits _) fun _ => trivial
  | get =>
    exact Task.every_tryBind (Task.every_tryBind (Task.every_changeContext (Task.every_call nofun))
      fun _ => deserialized_routed traits _) fun _ => trivial
  | scan pattern =>
    refine Task.every_tryBind (Task.every_tryBind (Task.every_lift (Task.every_call nofun))
      fun _ => trivial) fun values => ?_
    cases values <;> trivial

/-- Clients and drainer agree on the streams: every entry goes to exactly one of the streams
that the loop visits, and no two keys of the shards clash. -/
theorem routing_agrees (sameName : store.drainerStreamName = conf.streamName)
    (samePartitions : store.drainerNumPartitions = conf.numPartitions.toNat)
    (positive : 0 < conf.numPartitions) :
    (∀ op key, (kvWrapper traits store op key).run.every (Routed conf)) ∧
    (∀ sql key, (pushToDrainerStream traits store sql key).run.every (Routed conf)) ∧
    (∀ handler rounds, (spawn conf handler rounds 0 :
      FleetTask φ δ (Except DrainerError Unit)).every (Visiting conf)) ∧
    (∀ handler rounds round, round < rounds → (spawn conf handler rounds 0 :
      FleetTask φ δ (Except DrainerError Unit)).may fun cmd =>
        cmd = .setNxEx handler (getStreamKeyFlag conf (visitedIndex conf round)) "true"
          conf.defaultTtl) ∧
    (∀ i, (∃ round, visitedIndex conf round = i) ↔ i < conf.numPartitions) ∧
    (∀ i j, getDrainerStreamName conf i = getDrainerStreamName conf j → i = j) ∧
    (∀ i j, getStreamKeyFlag conf i = getStreamKeyFlag conf j → i = j) ∧
    ∀ i j, getStreamKeyFlag conf i ≠ getDrainerStreamName conf j :=
  ⟨kvWrapper_routed traits sameName samePartitions positive,
    pushToDrainerStream_routed traits sameName samePartitions positive,
    fun handler rounds => spawn_visits handler rounds 0,
    fun _ _ round watched => Nat.zero_add round ▸ spawn_asks 0 watched,
    visitedIndex_range positive, fun _ _ => streamName_injective, fun _ _ => flag_injective,
    flag_not_stream⟩

end Clients

theorem routing_agrees_sample :
    (kvWrapper textTraits textStore (.hset "f" "v" "sql") "k").run.every (Routed sampleSettings) ∧
    getStreamKeyFlag sampleSettings 0 ≠ getDrainerStreamName sampleSettings 0 := by
  have agree : (∀ op key, (kvWrapper textTraits textStore op key).run.every
      (Routed sampleSettings)) ∧ _ :=
    routing_agrees (φ := Unit) (δ := Unit) textTraits rfl rfl (by decide)
  obtain ⟨routed, -, -, -, -, -, -, flags⟩ := agree
  exact ⟨routed (.hset "f" "v" "sql") "k", flags 0 0⟩

end Mercado.Drainer.Fleet
