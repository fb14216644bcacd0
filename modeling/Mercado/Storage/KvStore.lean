import Mathlib.Data.List.Dedup
import Mathlib.Logic.Function.Basic
import Mercado.Async.Rely
import Mercado.Errors
import Mercado.Redis.Stream
import Mercado.Replies

/-! `kv_wrapper`: the operations of the key-value store, each a few Redis commands
in a row. A write also appends an entry to the drainer stream of its shard. -/
namespace Mercado.Storage
open Async Redis

/-- What the operations need to know of the types they are generic over, and the
functions of other crates: serde_json, crc32fast, the glob patterns of Redis. -/
structure Traits (S T σ : Type) where
  encodeToVec : S → Except Unit String
  uniqueConstraints : S → List String
  tableName : S → String
  parseStruct : String → Except Unit T
  toJson : σ → Except Unit String
  crc32 : String → Nat
  globMatches : String → String → Bool

structure RedisConfig where
  defaultTtl : Nat
  defaultHashTtl : Nat

structure KvRouterStore where
  drainerStreamName : String
  drainerNumPartitions : Nat
  ttlForKv : Nat
  requestId : Option String
  config : RedisConfig

inductive PartitionKey where
  | merchantIdPaymentId (merchantId paymentId : String)
  | merchantIdPaymentIdCombination (combination : String)

def PartitionKey.display : PartitionKey → String
  | .merchantIdPaymentId merchantId paymentId => "mid_" ++ merchantId ++ "_pid_" ++ paymentId
  | .merchantIdPaymentIdCombination combination => combination

inductive KvOperation (S σ : Type) where
  | hset (field value : String) (sql : σ)
  | setNx (value : S) (sql : σ)
  | hSetNx (field : String) (value : S) (sql : σ)
  | hGet (field : String)
  | get
  | scan (pattern : String)

inductive KvResult (T : Type) where
  | hGet (value : T)
  | get (value : T)
  | hset
  | setNx (reply : SetnxReply)
  | hSetNx (reply : HsetnxReply)
  | scan (values : List T)

abbrev FieldValuePairs := List (String × String)

/-- The Redis commands of the operations, and the two things they ask of the process
itself: whether Redis is available, and the time. -/
inductive Command where
  | isRedisAvailable
  | hset (key field value : String)
  | hsetnx (key field value : String)
  | setNxEx (key value : String) (seconds : Nat)
  | expire (key : String) (seconds : Nat)
  | sadd (key : String) (members : List String)
  | xadd (stream : String) (fields : FieldValuePairs)
  | hget (key field : String)
  | get (key : String)
  | hscan (key pattern : String)
  | nowUnixTimestamp

abbrev Reply : Command → Type
  | .isRedisAvailable => Bool
  | .hset .. => Except Unit Unit
  | .hsetnx .. => Except Unit Nat
  | .setNxEx .. => Except Unit (Option String)
  | .expire .. => Except Unit Unit
  | .sadd .. => Except Unit Nat
  | .xadd .. => Except Unit Unit
  | .hget .. => Except Unit (Option String)
  | .get .. => Except Unit (Option String)
  | .hscan .. => Except Unit (List (String × String))
  | .nowUnixTimestamp => Int

abbrev KvTask := Task Command Reply
abbrev Kv := ExceptT RedisError KvTask

abbrev call (c : Command) : KvTask (Reply c) := Task.call c

def converted {α β : Type} (fromValue : α → Except Unit β) (t : KvTask (Except Unit α)) :
    KvTask (Except Unit β) :=
  t.bind fun r => .done (r.bind fromValue)

def setExpiry (key : String) (seconds : Nat) : Kv Unit :=
  Task.changeContext .setExpiryFailed (call (.expire key seconds))

def setHashFields (config : RedisConfig) (key field value : String) (ttl : Option Nat) :
    Kv Unit := do
  Task.changeContext .setHashFailed (call (.hset key field value))
  setExpiry key (ttl.getD config.defaultHashTtl)

def setHashFieldIfNotExist (config : RedisConfig) (key field value : String) (ttl : Option Nat) :
    Kv HsetnxReply := do
  let inner ← Task.changeContext .setHashFieldFailed
    (converted HsetnxReply.fromValue (call (.hsetnx key field value)))
  setExpiry key (ttl.getD config.defaultHashTtl)
  return inner

def setKeyIfNotExistsWithExpiry (config : RedisConfig) (key value : String)
    (seconds : Option Nat) : Kv SetnxReply :=
  Task.changeContext .setFailed
    (converted SetnxReply.fromValue (call (.setNxEx key value (seconds.getD config.defaultTtl))))

def saddMembers (key : String) (members : List String) : Kv SaddReply :=
  Task.changeContext .setAddMembersFailed (converted SaddReply.fromValue (call (.sadd key members)))

section Operations

variable {S T σ : Type} (traits : Traits S T σ)

def partitionNumber (key : PartitionKey) (numPartitions : Nat) : Nat :=
  traits.crc32 key.display % numPartitions

def shardKey (key : PartitionKey) (numPartitions : Nat) : String :=
  "shard_" ++ toString (partitionNumber traits key numPartitions)

def getDrainerStreamName (store : KvRouterStore) (shardKey : String) : String :=
  "\x7b" ++ shardKey ++ "\x7d_" ++ store.drainerStreamName

def toFieldValuePairs (sql : σ) (requestId globalId : String) (pushedAt : Int) :
    Except Unit FieldValuePairs := do
  let typedSql ← traits.toJson sql
  return [("typed_sql", typedSql), ("global_id", globalId), ("request_id", requestId),
    ("pushed_at", toString pushedAt)]

def pushToDrainerStream (store : KvRouterStore) (sql : σ) (partitionKey : PartitionKey) :
    Kv Unit := do
  let globalId := partitionKey.display
  let requestId := store.requestId.getD ""
  let streamName := getDrainerStreamName store
    (shardKey traits partitionKey store.drainerNumPartitions)
  let now ← call .nowUnixTimestamp
  let fields ← Task.orFail .jsonSerializationFailed (toFieldValuePairs traits sql requestId globalId now)
  Task.changeContext .streamAppendFailed (call (.xadd streamName fields))

def checkForConstraints (value : S) : Kv Unit := do
  match ← saddMembers ("unique_constraint:" ++ traits.tableName value)
      (traits.uniqueConstraints value) with
  | .keyNotSet => throw .setAddMembersFailed
  | .keySet => return ()

def serializeAndSetHashFieldIfNotExist (config : RedisConfig) (key field : String) (value : S)
    (ttl : Option Nat) : Kv HsetnxReply := do
  let serialized ← Task.orFail .jsonSerializationFailed (traits.encodeToVec value)
  setHashFieldIfNotExist config key field serialized ttl

def serializeAndSetKeyIfNotExist (config : RedisConfig) (key : String) (value : S)
    (ttl : Option Nat) : Kv SetnxReply := do
  let serialized ← Task.orFail .jsonSerializationFailed (traits.encodeToVec value)
  setKeyIfNotExistsWithExpiry config key serialized ttl

/-- A missing or empty value is `NotFound`, one that does not parse an error of its own. -/
def deserialized (value : Option String) : Kv T :=
  match value with
  | none | some "" => throw .notFound
  | some bytes => Task.orFail .jsonDeserializationFailed (traits.parseStruct bytes)

def getHashFieldAndDeserialize (key field : String) : Kv T := do
  let value ← Task.changeContext .getHashFieldFailed (call (.hget key field))
  deserialized traits value

def getAndDeserializeKey (key : String) : Kv T := do
  let value ← Task.changeContext .getFailed (call (.get key))
  deserialized traits value

/-- Errors of the scan are only logged, and values that do not parse are left out. -/
def hscanAndDeserialize (key pattern : String) : Kv (List T) := do
  let results ← call (.hscan key pattern)
  let values := match results with
    | .ok fields => fields.map Prod.snd
    | .error _ => []
  return values.filterMap fun value => (traits.parseStruct value).toOption

def getRedisConn : Kv Unit := do
  if ← call .isRedisAvailable then
    return ()
  else
    throw .redisConnectionError

def kvWrapper (store : KvRouterStore) (op : KvOperation S σ) (key : String) : Kv (KvResult T) := do
  getRedisConn
  let ttl := store.ttlForKv
  let partitionKey := PartitionKey.merchantIdPaymentIdCombination key
  match op with
  | .hset field value sql => do
    setHashFields store.config key field value (some ttl)
    pushToDrainerStream traits store sql partitionKey
    return .hset
  | .hGet field => do
    let result ← getHashFieldAndDeserialize traits key field
    return .hGet result
  | .scan pattern => do
    let result ← hscanAndDeserialize traits key pattern
    if result.isEmpty then throw .notFound
    return .scan result
  | .hSetNx field value sql => do
    checkForConstraints traits value
    let result ← serializeAndSetHashFieldIfNotExist traits store.config key field value (some ttl)
    match result with
    | .keySet =>
      pushToDrainerStream traits store sql partitionKey
      return .hSetNx result
    | .keyNotSet => throw .setNxFailed
  | .setNx value sql => do
    let result ← serializeAndSetKeyIfNotExist traits store.config key value (some ttl)
    checkForConstraints traits value
    match result with
    | .keySet =>
      pushToDrainerStream traits store sql partitionKey
      return .setNx result
    | .keyNotSet => throw .setNxFailed
  | .get => do
    let result ← getAndDeserializeKey traits key
    return .get result

end Operations

/- Redis as far as these commands see it, and everything that took effect, in order. -/

structure Keyspace where
  strings : String → Option String
  hashes : String → List (String × String)
  sets : String → List String
  streams : String → Stream FieldValuePairs
  ttl : String → Option Nat

/-- What a write goes to: a key, or a field of the hash at a key. -/
inductive Location where
  | plain (key : String)
  | inHash (key field : String)
  deriving DecidableEq, Repr

def Location.redisKey : Location → String
  | .plain key => key
  | .inHash key _ => key

inductive Event where
  | wrote (client : Nat) (location : Location) (value : String)
  | pushed (client : Nat) (stream : String) (entry : Entry FieldValuePairs)
  | expired (key : String)
  deriving DecidableEq, Repr

structure World where
  keys : Keyspace
  log : List Event

namespace Keyspace

def read (k : Keyspace) : Location → Option String
  | .plain key => k.strings key
  | .inHash key field => (k.hashes key).lookup field

def write (k : Keyspace) : Location → String → Keyspace
  | .plain key, value => { k with strings := Function.update k.strings key (some value) }
  | .inHash key field, value =>
    let others := (k.hashes key).filter fun x => x.1 ≠ field
    { k with hashes := Function.update k.hashes key ((field, value) :: others) }

def drop (k : Keyspace) (key : String) : Keyspace :=
  { k with
    strings := Function.update k.strings key none
    hashes := Function.update k.hashes key []
    ttl := Function.update k.ttl key none }

def setTtl (k : Keyspace) (key : String) (seconds : Nat) : Keyspace :=
  { k with ttl := Function.update k.ttl key (some seconds) }

def newMembers (k : Keyspace) (key : String) (members : List String) : List String :=
  (members.filter fun m => m ∉ k.sets key).dedup

def addMembers (k : Keyspace) (key : String) (members : List String) : Keyspace :=
  { k with sets := Function.update k.sets key (k.sets key ++ k.newMembers key members) }

def append (k : Keyspace) (stream : String) (gap : Nat) (fields : FieldValuePairs) : Keyspace :=
  { k with streams := Function.update k.streams stream ((k.streams stream).xadd gap fields) }

end Keyspace

namespace World

def write (w : World) (client : Nat) (location : Location) (value : String) : World :=
  ⟨w.keys.write location value, w.log ++ [.wrote client location value]⟩

def writeIfNotExists (w : World) (client : Nat) (location : Location) (value : String) : World :=
  if (w.keys.read location).isSome then w else w.write client location value

def drop (w : World) (key : String) : World := ⟨w.keys.drop key, w.log ++ [.expired key]⟩

/-- EXPIRE with no time to live deletes the key. -/
def expire (w : World) (key : String) (seconds : Nat) : World :=
  if seconds = 0 then w.drop key else { w with keys := w.keys.setTtl key seconds }

def setNxEx (w : World) (client : Nat) (key value : String) (seconds : Nat) : World :=
  if (w.keys.read (.plain key)).isSome then w
  else
    let written := w.write client (.plain key) value
    { written with keys := written.keys.setTtl key seconds }

def sadd (w : World) (key : String) (members : List String) : World :=
  { w with keys := w.keys.addMembers key members }

def xadd (w : World) (client : Nat) (stream : String) (gap : Nat) (fields : FieldValuePairs) :
    World :=
  ⟨w.keys.append stream gap fields,
    w.log ++ [.pushed client stream ((w.keys.streams stream).added gap fields)]⟩

end World

def World.empty : World :=
  ⟨⟨fun _ => none, fun _ => [], fun _ => [], fun _ => .empty, fun _ => none⟩, []⟩

structure Choice where
  redis : Delivery := .answered
  available : Bool := true
  gap : Nat := 0
  now : Int := 0
  page : String → Bool := fun _ => true

/-- SET does not take a time to live of zero, SADD no empty list of members. HSCAN gives a page,
and the next one only when it is asked for, which it never is. -/
def exec (globMatches : String → String → Bool) (client : Nat) :
    (c : Command) → Choice → World → Reply c × World
  | .isRedisAvailable, o, w => (o.available, w)
  | .hset key field value, o, w =>
    o.redis.through () w ((), w.write client (.inHash key field) value)
  | .hsetnx key field value, o, w =>
    o.redis.through () w (if (w.keys.read (.inHash key field)).isSome then 0 else 1,
      w.writeIfNotExists client (.inHash key field) value)
  | .setNxEx key value seconds, o, w =>
    if seconds = 0 then (.error (), w)
    else o.redis.through () w
      (if (w.keys.read (.plain key)).isSome then none else some "OK",
        w.setNxEx client key value seconds)
  | .expire key seconds, o, w => o.redis.through () w ((), w.expire key seconds)
  | .sadd key members, o, w =>
    if members = [] then (.error (), w)
    else o.redis.through () w ((w.keys.newMembers key members).length, w.sadd key members)
  | .xadd stream fields, o, w => o.redis.through () w ((), w.xadd client stream o.gap fields)
  | .hget key field, o, w => o.redis.through () w (w.keys.read (.inHash key field), w)
  | .get key, o, w => o.redis.through () w (w.keys.read (.plain key), w)
  | .hscan key pattern, o, w =>
    o.redis.through () w
      ((w.keys.hashes key).filter fun x => o.page x.1 && globMatches pattern x.1, w)
  | .nowUnixTimestamp, o, w => (o.now, w)

structure Call (S σ : Type) where
  op : KvOperation S σ
  key : String

/-- Any number of clients of one store. A key may expire at any time. -/
def kvMachine {S T σ : Type} (traits : Traits S T σ) (store : KvRouterStore) :
    Machine Command Reply World Choice String (Call S σ) (Except RedisError (KvResult T)) where
  exec := exec traits.globMatches
  env := fun key w => some (w.drop key)
  program := fun call => (kvWrapper traits store call.op call.key).run

/- A store whose values and queries are their own encodings; the checksum is that
of the key k. -/
def textTraits : Traits String String String where
  encodeToVec := .ok
  uniqueConstraints := fun value => [value]
  tableName := fun _ => "Address"
  parseStruct := .ok
  toJson := .ok
  crc32 := fun _ => 140662621
  globMatches := fun _ _ => true

def textStore : KvRouterStore where
  drainerStreamName := "DRAINER_STREAM"
  drainerNumPartitions := 64
  ttlForKv := 900
  requestId := none
  config := ⟨300, 900⟩

end Mercado.Storage
