import Mercado.Async.Rely
import Mercado.Errors
import Mercado.Redis.Stream

/-! The drainer of one shard: it reads the head of the shard's stream, executes the
entries in order and removes what it has executed. Entries are appended by the
clients of the key-value store, which know nothing of the drainers. -/
namespace Mercado.Drainer
open Async Redis

inductive DrainerError where
  | redisError (e : RedisError)
  deriving DecidableEq, Repr

inductive QueryResult where
  | ok
  | failed (e : DatabaseError)
  deriving DecidableEq, Repr

/-- The loop goes on after these, so the entry counts as processed. -/
def QueryResult.processed : QueryResult → Bool
  | .ok => true
  | .failed .uniqueViolation => true
  | .failed _ => false

abbrev StreamEntries (φ : Type) := List (Entry φ)

abbrev StreamReadResult (φ : Type) := List (String × StreamEntries φ)

/-- The awaits of the drainer. `execute_query` works on the decoded data; the entry
it was decoded from is only there to be remembered. -/
inductive Command (φ δ : Type) where
  | streamReadEntries (stream : String) (id : Nat) (count : Nat)
  | executeQuery (entry : Entry φ) (data : δ)
  | streamTrimEntries (stream : String) (minId : Nat)
  | streamDeleteEntries (stream : String) (id : Nat)
  | assertionFailed (readEntries trimmedEntries : Nat)

abbrev Reply (φ δ : Type) : Command φ δ → Type
  | .streamReadEntries .. => Except RedisError (StreamReadResult φ)
  | .executeQuery .. => QueryResult
  | .streamTrimEntries .. => Except RedisError Nat
  | .streamDeleteEntries .. => Except RedisError Nat
  | .assertionFailed .. => Unit

variable {φ δ π : Type}

abbrev DrainerTask (φ δ : Type) := Task (Command φ δ) (Reply φ δ)

abbrev streamReadEntries (stream : String) (id count : Nat) :
    DrainerTask φ δ (Except RedisError (StreamReadResult φ)) :=
  .call (Command.streamReadEntries stream id count)

abbrev executeQuery (entry : Entry φ) (data : δ) : DrainerTask φ δ QueryResult :=
  .call (Command.executeQuery entry data)

abbrev streamTrimEntries (stream : String) (minId : Nat) :
    DrainerTask φ δ (Except RedisError Nat) :=
  .call (Command.streamTrimEntries stream minId)

abbrev streamDeleteEntries (stream : String) (id : Nat) :
    DrainerTask φ δ (Except RedisError Nat) :=
  .call (Command.streamDeleteEntries stream id)

/- The line logged when the number of entries read is not the number trimmed. -/
abbrev assertionFailed (readEntries trimmedEntries : Nat) : DrainerTask φ δ Unit :=
  .call (Command.assertionFailed readEntries trimmedEntries)

def readFromStream (streamName : String) (maxReadCount : Nat) :
    DrainerTask φ δ (Except DrainerError (StreamReadResult φ)) := do
  match ← streamReadEntries streamName 0 maxReadCount with
  | .ok output => return .ok output
  | .error e => return .error (.redisError e)

def trimFromStream (streamName : String) (minimumEntryId : Nat) :
    DrainerTask φ δ (Except DrainerError Nat) := do
  match ← streamTrimEntries streamName minimumEntryId with
  | .error e => return .error (.redisError e)
  | .ok trimmed =>
    -- XTRIM leaves the given id itself in the stream
    match ← streamDeleteEntries streamName minimumEntryId with
    | .error e => return .error (.redisError e)
    | .ok _ => return .ok (trimmed + 1)

def parseStreamEntries (readResult : StreamReadResult φ) (streamName : String) :
    Except DrainerError (StreamEntries φ) :=
  match readResult.lookup streamName with
  | some entries => .ok entries
  | none => .error (.redisError .notFound)

/-- The loop over the entries, with `last_processed_id` as its accumulator. No
entry id is the empty string, so `none` stands for the empty one. -/
def processEntries (fromHashmap : φ → Except π δ) :
    StreamEntries φ → Option Nat → DrainerTask φ δ (Option Nat)
  | [], lastProcessedId => return lastProcessedId
  | entry :: rest, lastProcessedId =>
    match fromHashmap entry.fields with
    | .error _ => return lastProcessedId
    | .ok data => do
      match ← executeQuery entry data with
      | .ok => processEntries fromHashmap rest (some entry.id)
      | .failed .uniqueViolation => processEntries fromHashmap rest (some entry.id)
      | .failed _ => return lastProcessedId

def drainer (fromHashmap : φ → Except π δ) (maxReadCount : Nat) (streamName : String) :
    DrainerTask φ δ (Except DrainerError Unit) := do
  match ← readFromStream streamName maxReadCount with
  | .error (.redisError .streamEmptyOrNotAvailable) => return .ok ()
  | .error error => return .error error
  | .ok streamRead =>
    match parseStreamEntries streamRead streamName with
    | .error error => return .error error
    | .ok entries =>
      match ← processEntries fromHashmap entries none with
      | none => return .ok ()
      | some lastProcessedId =>
        match ← trimFromStream streamName lastProcessedId with
        | .error error => return .error error
        | .ok entriesTrimmed =>
          if entries.length = entriesTrimmed then
            return .ok ()
          else
            assertionFailed entries.length entriesTrimmed
            return .ok ()

/- The shard: its stream, and everything that has happened to it in order. -/

inductive Event (φ : Type) where
  | appended (entry : Entry φ)
  | read (run : Nat) (batch : StreamEntries φ)
  | executed (run : Nat) (entry : Entry φ) (result : QueryResult)
  | trimmed (run : Nat) (minId : Nat) (removed : StreamEntries φ)
  | deleted (run : Nat) (id : Nat) (removed : StreamEntries φ)
  | assertionFailed (run : Nat) (readEntries trimmedEntries : Nat)
  deriving DecidableEq, Repr

structure Shard (φ : Type) where
  stream : Stream φ
  log : List (Event φ)

def Shard.empty : Shard φ := ⟨.empty, []⟩

/-- How a command goes: Redis may fail before or after its effect, a query may have
any result. -/
structure Choice where
  redis : Delivery := .answered
  query : QueryResult := .ok
  deriving DecidableEq, Repr

/-- fred reports an empty XREAD as a missing or unparsable reply. -/
def readReply (streamName : String) (batch : StreamEntries φ) :
    Except RedisError (StreamReadResult φ) :=
  if batch.isEmpty then .error .streamEmptyOrNotAvailable else .ok [(streamName, batch)]

def exec (run : Nat) : (c : Command φ δ) → Choice → Shard φ → Reply φ δ c × Shard φ
  | .streamReadEntries name id count, choice, w =>
    let batch := w.stream.xread id count
    match choice.redis with
    | .answered => (readReply name batch, { w with log := w.log ++ [.read run batch] })
    | _ => (.error .streamReadFailed, w)
  | .executeQuery entry _, choice, w =>
    (choice.query, { w with log := w.log ++ [.executed run entry choice.query] })
  | .streamTrimEntries _ minId, choice, w =>
    let removed := w.stream.entries.filter fun e => e.id < minId
    choice.redis.through .streamTrimFailed w
      ((w.stream.xtrimMinId minId).1,
        ⟨(w.stream.xtrimMinId minId).2, w.log ++ [.trimmed run minId removed]⟩)
  | .streamDeleteEntries _ id, choice, w =>
    let removed := w.stream.entries.filter fun e => [id].contains e.id
    choice.redis.through .streamDeleteFailed w
      ((w.stream.xdel [id]).1, ⟨(w.stream.xdel [id]).2, w.log ++ [.deleted run id removed]⟩)
  | .assertionFailed readEntries trimmedEntries, _, w =>
    ((), { w with log := w.log ++ [.assertionFailed run readEntries trimmedEntries] })

/-- A client appends an entry to the shard's stream, `gap` after the last one. -/
structure Append (φ : Type) where
  gap : Nat
  fields : φ
  deriving DecidableEq, Repr

def append (a : Append φ) (w : Shard φ) : Option (Shard φ) :=
  some ⟨w.stream.xadd a.gap a.fields, w.log ++ [.appended (w.stream.added a.gap a.fields)]⟩

def machine (fromHashmap : φ → Except π δ) (streamName : String) :
    Machine (Command φ δ) (Reply φ δ) (Shard φ) Choice (Append φ) Nat
      (Except DrainerError Unit) where
  exec := exec
  env := append
  program := fun maxReadCount => drainer fromHashmap maxReadCount streamName

def appendedEntries (log : List (Event φ)) : StreamEntries φ :=
  log.filterMap fun
    | .appended entry => some entry
    | _ => none

end Mercado.Drainer
