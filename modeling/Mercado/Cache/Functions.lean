import Mathlib.Logic.Function.Basic
import Mercado.Async.Rely
import Mercado.Errors
import Mercado.Redis.Stream
import Mercado.Replies

/-! The configuration caches: a moka cache in the memory of every process, Redis behind
them, the database behind Redis. Readers fill both levels, writers empty them, and a
message on the invalidation channel makes the other processes empty theirs. -/
namespace Mercado.Cache
open Async Redis

/-- A value with the number of updates its row had seen when it was read. -/
structure Dated (α : Type) where
  value : α
  version : Nat
  deriving DecidableEq, Repr

/-- One of the types that a cache holds. The caches are keyed by name alone, so `V` is
all of these types together. -/
structure Cacheable (V : Type) where
  downcastRef : V → Bool
  encodeToVec : V → Except Unit String
  parseStruct : String → Except Unit V

inductive CacheName where
  | configCache | accountsCache
  deriving DecidableEq, Repr

structure Place where
  process : Nat
  cache : CacheName
  deriving DecidableEq, Repr

/- The messages of the invalidation channel. -/

inductive CacheKind where
  | config (key : String)
  | accounts (key : String)
  | all (key : String)
  deriving DecidableEq, Repr

inductive RedisValue where
  | null
  | string (text : String)
  deriving DecidableEq, Repr

def RedisValue.asString : RedisValue → Option String
  | .null => none
  | .string text => some text

def configCachePrefix : String := "config"
def accountsCachePrefix : String := "accounts"
def allCachePrefix : String := "all_cache_kind"

def splitOnce (text : String) (separator : Char) : Option (String × String) :=
  match text.toList.dropWhile (· ≠ separator) with
  | [] => none
  | _ :: after => some (.ofList (text.toList.takeWhile (· ≠ separator)), .ofList after)

namespace CacheKind

def toRedisValue : CacheKind → RedisValue
  | .config key => .string (configCachePrefix ++ "," ++ key)
  | .accounts key => .string (accountsCachePrefix ++ "," ++ key)
  | .all key => .string (allCachePrefix ++ "," ++ key)

def tryFrom (kind : RedisValue) : Except Unit CacheKind :=
  match kind.asString with
  | none => .error ()
  | some text =>
    match splitOnce text ',' with
    | none => .error ()
    | some (kind, key) =>
      if kind = accountsCachePrefix then .ok (.accounts key)
      else if kind = configCachePrefix then .ok (.config key)
      else if kind = allCachePrefix then .ok (.all key)
      else .error ()

def key : CacheKind → String
  | .config key | .accounts key | .all key => key

/-- The caches that a message of this kind empties, in this order. -/
def caches : CacheKind → List CacheName
  | .config _ => [.configCache]
  | .accounts _ => [.accountsCache]
  | .all _ => [.configCache, .accountsCache]

end CacheKind

theorem splitOnce_append {before after : String} {c : Char} (absent : c ∉ before.toList) :
    splitOnce (before ++ String.singleton c ++ after) c = some (before, after) := by
  have other : ∀ x ∈ before.toList, decide (x ≠ c) = true := by
    intro x hx
    have differ : x ≠ c := fun same => absent (same ▸ hx)
    simpa using differ
  have text : (before ++ String.singleton c ++ after).toList =
      before.toList ++ c :: after.toList := by simp
  unfold splitOnce
  rw [text, List.dropWhile_append_of_pos other, List.takeWhile_append_of_pos other]
  simp

theorem tryFrom_toRedisValue (kind : CacheKind) : CacheKind.tryFrom kind.toRedisValue = .ok kind := by
  have comma : "," = String.singleton ',' := rfl
  have split : ∀ kindPrefix key : String, ',' ∉ kindPrefix.toList →
      splitOnce (kindPrefix ++ "," ++ key) ',' = some (kindPrefix, key) := by
    intro kindPrefix key absent
    rw [comma, splitOnce_append absent]
  cases kind with
  | config key =>
    simp only [CacheKind.tryFrom, CacheKind.toRedisValue, RedisValue.asString,
      split configCachePrefix key (by decide)]
    rfl
  | accounts key =>
    simp only [CacheKind.tryFrom, CacheKind.toRedisValue, RedisValue.asString,
      split accountsCachePrefix key (by decide)]
    rfl
  | all key =>
    simp only [CacheKind.tryFrom, CacheKind.toRedisValue, RedisValue.asString,
      split allCachePrefix key (by decide)]
    rfl

/-- What arrives on the channel. `versions` are those of the rows when it was sent. -/
structure Message where
  value : RedisValue
  versions : String → Nat

/- The awaited steps of the cache functions. The functions that readers and writers are
given, a query and an update of one row, are one step each. -/

inductive Command (V : Type) where
  | isRedisAvailable
  | getInMemory (place : Place) (key : String)
  | insertInMemory (place : Place) (key : String) (value : Dated V)
  | invalidate (place : Place) (key : String)
  | get (key : String)
  | set (key : String) (text : Dated String)
  | del (key : String)
  | fetch (key : String)
  | update (key : String) (value : V)
  | publish (value : RedisValue)
  | recv (process : Nat)

abbrev Reply (V : Type) : Command V → Type
  | .isRedisAvailable => Bool
  | .getInMemory .. => Option (Dated V)
  | .insertInMemory .. => Unit
  | .invalidate .. => Unit
  | .get .. => Except Unit (Option (Dated String))
  | .set .. => Except Unit Unit
  | .del .. => Except Unit Nat
  | .fetch .. => Except StorageError (Dated V)
  | .update .. => Except StorageError (Dated V)
  | .publish .. => Except Unit Nat
  | .recv .. => Option Message

section Functions

variable {V : Type}

abbrev CacheTask (V : Type) := Task (Command V) (Reply V)

def call (c : Command V) : CacheTask V (Reply V c) := Task.call c

def redisConn : ExceptT RedisError (CacheTask V) Unit := do
  if ← ExceptT.lift (call (V := V) .isRedisAvailable) then
    return ()
  else
    throw .redisConnectionError

/-- A missing or empty value is not found, one that does not parse an error of its own. -/
def parsed (type : Cacheable V) : Option (Dated String) → Except RedisError (Dated V)
  | none => .error .notFound
  | some text =>
    if text.value = "" then .error .notFound
    else match type.parseStruct text.value with
      | .ok value => .ok ⟨value, text.version⟩
      | .error _ => .error .jsonDeserializationFailed

def getAndDeserializeCached (type : Cacheable V) (key : String) :
    ExceptT RedisError (CacheTask V) (Dated V) := do
  let valueBytes ← Task.changeContext .getFailed (call (.get key))
  .mk (.done (parsed type valueBytes))

def serializeAndSetKey (type : Cacheable V) (key : String) (data : Dated V) :
    ExceptT RedisError (CacheTask V) Unit := do
  let serialized ← Task.orFail .jsonSerializationFailed (type.encodeToVec data.value)
  Task.changeContext .setFailed (call (.set key ⟨serialized, data.version⟩))

def deleteKey (key : String) : ExceptT RedisError (CacheTask V) DelReply :=
  Task.changeContext .deleteFailed
    ((call (.del key)).bind fun r => .done (r.bind DelReply.fromValue))

def getDataSetRedis (type : Cacheable V) (key : String) :
    ExceptT StorageError (CacheTask V) (Dated V) := do
  let data ← ExceptT.mk (call (.fetch key))
  Task.changeContext .kvError (serializeAndSetKey type key data).run
  return data

def getOrPopulateRedis (type : Cacheable V) (key : String) :
    ExceptT StorageError (CacheTask V) (Dated V) := do
  Task.changeContext (.redisError .redisConnectionError) redisConn.run
  let redisVal ← ExceptT.lift (getAndDeserializeCached type key).run
  match redisVal with
  | .error .notFound | .error .jsonDeserializationFailed => getDataSetRedis type key
  | .error _ => throw .kvError
  | .ok val => return val

def getVal (type : Cacheable V) (place : Place) (key : String) :
    CacheTask V (Option (Dated V)) :=
  (call (.getInMemory place key)).bind fun val =>
    .done (val.filter fun val => type.downcastRef val.value)

def getOrPopulateInMemory (type : Cacheable V) (place : Place) (key : String) :
    ExceptT StorageError (CacheTask V) (Dated V) := do
  match ← ExceptT.lift (getVal type place key) with
  | some val => return val
  | none =>
    let val ← getOrPopulateRedis type key
    ExceptT.lift (call (.insertInMemory place key val))
    return val

def invalidateIn (process : Nat) (key : String) : Option CacheName → CacheTask V Unit
  | none => .done ()
  | some cache => call (.invalidate ⟨process, cache⟩ key)

def redactCache (process : Nat) (key : String) (value : V) (inMemory : Option CacheName) :
    ExceptT StorageError (CacheTask V) (Dated V) := do
  let data ← ExceptT.mk (call (.update key value))
  ExceptT.lift (invalidateIn process key inMemory)
  Task.changeContext (.redisError .redisConnectionError) redisConn.run
  let _ ← Task.changeContext .kvError (deleteKey key).run
  return data

def publishIntoRedactChannel (key : CacheKind) : ExceptT StorageError (CacheTask V) Nat := do
  Task.changeContext (.redisError .redisConnectionError) redisConn.run
  Task.changeContext .kvError (call (.publish key.toRedisValue))

def publishAndRedact (key : CacheKind) (value : V) :
    ExceptT StorageError (CacheTask V) (Dated V) := do
  let data ← ExceptT.mk (call (.update key.key value))
  let _ ← publishIntoRedactChannel key
  return data

/-- The loop of a subscriber, for at most so many messages. Messages of no known kind
are skipped, errors of the deletion are only logged. -/
def onMessage (process : Nat) : Nat → ExceptT RedisError (CacheTask V) Unit
  | 0 => return ()
  | messages + 1 => do
    match ← ExceptT.lift (call (.recv process)) with
    | none => return ()
    | some message =>
      match CacheKind.tryFrom message.value with
      | .error _ => onMessage process messages
      | .ok kind =>
        let key ← match kind with
          | .config key => do
            ExceptT.lift (call (.invalidate ⟨process, .configCache⟩ key))
            pure key
          | .accounts key => do
            ExceptT.lift (call (.invalidate ⟨process, .accountsCache⟩ key))
            pure key
          | .all key => do
            ExceptT.lift (call (.invalidate ⟨process, .configCache⟩ key))
            ExceptT.lift (call (.invalidate ⟨process, .accountsCache⟩ key))
            pure key
        let _ ← ExceptT.lift (deleteKey key).run
        onMessage process messages

end Functions

/- The shared state, and what every client has seen and done, the latest first. -/

inductive Event where
  | hit (version : Nat)
  | read (text : Dated String)
  | fetched (version : Nat)
  | set
  | updated (key : String) (version : Nat)
  | invalidated (place : Place) (key : String)
  | deleted (key : String)
  | published (message : Message)
  | received (message : Message)

structure World (V : Type) where
  rows : String → Dated V
  redis : String → Option (Dated String)
  memory : Place × String → Option (Dated V)
  inbox : Nat → List Message
  trace : Nat → List Event

namespace World

variable {V : Type} (w : World V)

def start (rows : String → Dated V) (redis : String → Option (Dated String))
    (memory : Place × String → Option (Dated V)) : World V :=
  ⟨rows, redis, memory, fun _ => [], fun _ => []⟩

def versions (key : String) : Nat := (w.rows key).version

def note (client : Nat) (ev : Event) : World V :=
  { w with trace := Function.update w.trace client (ev :: w.trace client) }

def noteFound {α : Type} (client : Nat) (ev : α → Event) : Option α → World V
  | none => w
  | some x => w.note client (ev x)

def setMemory (place : Place) (key : String) (value : Option (Dated V)) : World V :=
  { w with memory := Function.update w.memory (place, key) value }

def setRedis (key : String) (text : Option (Dated String)) : World V :=
  { w with redis := Function.update w.redis key text }

def newRow (key : String) (value : V) : Dated V := ⟨value, w.versions key + 1⟩

def setRow (key : String) (value : V) : World V :=
  { w with rows := Function.update w.rows key (w.newRow key value) }

def send (value : RedisValue) (subscribers : List Nat) : World V :=
  { w with inbox := fun process =>
      if process ∈ subscribers then w.inbox process ++ [⟨value, w.versions⟩]
      else w.inbox process }

def dequeue (process : Nat) : World V :=
  { w with inbox := Function.update w.inbox process (w.inbox process).tail }

end World

structure Choice where
  redis : Delivery := .answered
  database : Delivery := .answered
  failure : StorageError := .databaseError .others
  available : Bool := true
  subscribers : List Nat := []
  lagged : Bool := false

def exec {V : Type} (client : Nat) :
    (c : Command V) → Choice → World V → Reply V c × World V
  | .isRedisAvailable, o, w => (o.available, w)
  | .getInMemory place key, _, w =>
    (w.memory (place, key), w.noteFound client (.hit ·.version) (w.memory (place, key)))
  | .insertInMemory place key value, _, w => ((), w.setMemory place key (some value))
  | .invalidate place key, _, w =>
    ((), (w.setMemory place key none).note client (.invalidated place key))
  | .get key, o, w =>
    o.redis.through () w (w.redis key, w.noteFound client .read (w.redis key))
  | .set key text, o, w =>
    o.redis.through () w ((), (w.setRedis key (some text)).note client .set)
  | .del key, o, w =>
    o.redis.through () w (if (w.redis key).isSome then 1 else 0,
      (w.setRedis key none).note client (.deleted key))
  | .fetch key, o, w =>
    o.database.through o.failure w (w.rows key, w.note client (.fetched (w.versions key)))
  | .update key value, o, w =>
    o.database.through o.failure w (w.newRow key value,
      (w.setRow key value).note client (.updated key (w.newRow key value).version))
  | .publish value, o, w =>
    o.redis.through () w (o.subscribers.length,
      (w.send value o.subscribers).note client (.published ⟨value, w.versions⟩))
  | .recv process, o, w =>
    match w.inbox process with
    | [] => (none, w)
    | message :: _ =>
      if o.lagged then (none, w)
      else (some message, (w.dequeue process).note client (.received message))

/-- An entry is dropped from a memory or from Redis for its age or for room; a row is
updated without the caches being told; somebody else sends a message. -/
inductive Env (V : Type) where
  | evicted (place : Place) (key : String)
  | expired (key : String)
  | stored (key : String) (value : V)
  | sent (value : RedisValue) (subscribers : List Nat)

def change {V : Type} : Env V → World V → World V
  | .evicted place key, w => w.setMemory place key none
  | .expired key, w => w.setRedis key none
  | .stored key value, w => w.setRow key value
  | .sent value subscribers, w => w.send value subscribers

inductive Call (V : Type) where
  | getOrPopulateRedis (type : Cacheable V) (key : String)
  | getOrPopulateInMemory (type : Cacheable V) (place : Place) (key : String)
  | redactCache (process : Nat) (key : String) (value : V) (inMemory : Option CacheName)
  | publishAndRedact (key : CacheKind) (value : V)
  | onMessage (process messages : Nat)

inductive Result (V : Type) where
  | data (r : Except StorageError (Dated V))
  | listened (r : Except RedisError Unit)

def Call.program {V : Type} : Call V → CacheTask V (Result V)
  | .getOrPopulateRedis type key => (Cache.getOrPopulateRedis type key).run.bind (.done ∘ .data)
  | .getOrPopulateInMemory type place key =>
    (Cache.getOrPopulateInMemory type place key).run.bind (.done ∘ .data)
  | .redactCache process key value inMemory =>
    (Cache.redactCache process key value inMemory).run.bind (.done ∘ .data)
  | .publishAndRedact key value => (Cache.publishAndRedact key value).run.bind (.done ∘ .data)
  | .onMessage process messages => (Cache.onMessage process messages).run.bind (.done ∘ .listened)

def machine (V : Type) : Machine (Command V) (Reply V) (World V) Choice
    (Env V) (Call V) (Result V) where
  exec := exec
  env := fun e w => some (change e w)
  program := Call.program

end Mercado.Cache
