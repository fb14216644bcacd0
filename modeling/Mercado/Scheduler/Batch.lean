import Mercado.Numerals
import Mercado.Scheduler.ProcessTracker
import Mercado.Scheduler.Settings
import Mercado.Serde.Json

/-! Batches of process trackers, and how they are written into stream entries. -/
namespace Mercado.Scheduler
open Results

abbrev FieldValuePairs := List (String × String)

/-- The hash map that an entry is read as; of several values of one field the last counts. -/
abbrev FieldMap := List (String × Option String)

def readFields (fields : FieldValuePairs) : FieldMap := fields.map fun x => (x.1, some x.2)

structure Serde where
  toString : List ProcessTracker → Except Unit String
  fromStr : String → Except Unit (List ProcessTracker)

structure ProcessTrackerBatch where
  id : String
  groupName : String
  streamName : String
  connectionName : String
  createdTime : PrimitiveDateTime
  rule : String
  trackers : List ProcessTracker
  deriving DecidableEq

def PrimitiveDateTime.unixTimestamp (t : PrimitiveDateTime) : Int := t / nanosPerSecond

namespace ProcessTrackerBatch

variable (serde : Serde)

def toRedisFieldValuePairs (batch : ProcessTrackerBatch) :
    Except ProcessTrackerError FieldValuePairs :=
  match serde.toString batch.trackers with
  | .error _ => .error .serializationFailed
  | .ok trackers => .ok [
      ("id", batch.id),
      ("group_name", batch.groupName),
      ("stream_name", batch.streamName),
      ("connection_name", batch.connectionName),
      ("created_time", ToString.toString batch.createdTime.unixTimestamp),
      ("rule", batch.rule),
      ("trackers", trackers)]

def getRequiredValue (entry : FieldMap) (name : String) : Except ProcessTrackerError String :=
  match (entry.reverse.lookup name).join with
  | none => .error .missingRequiredField
  | some value => .ok value

def parseCreatedTime (text : String) : Except ProcessTrackerError PrimitiveDateTime :=
  match parseI64 text with
  | none => .error .deserializationFailed
  | some seconds =>
    if PrimitiveDateTime.valid (seconds * nanosPerSecond) then .ok (seconds * nanosPerSecond)
    else .error .missingRequiredField

def parseTrackers (text : String) : Except ProcessTrackerError (List ProcessTracker) :=
  (serde.fromStr text).mapError fun _ => .deserializationFailed

theorem parseTrackers_ok {serde : Serde} {text : String} {trackers : List ProcessTracker} :
    parseTrackers serde text = .ok trackers ↔ serde.fromStr text = .ok trackers := by
  unfold parseTrackers
  cases serde.fromStr text <;> simp [Except.mapError]

def fromRedisStreamEntry (entry : FieldMap) :
    Except ProcessTrackerError ProcessTrackerBatch := do
  let id ← getRequiredValue entry "id"
  let groupName ← getRequiredValue entry "group_name"
  let streamName ← getRequiredValue entry "stream_name"
  let connectionName ← getRequiredValue entry "connection_name"
  let createdTime ← getRequiredValue entry "created_time"
  let createdTime ← parseCreatedTime createdTime
  let rule ← getRequiredValue entry "rule"
  let trackers ← getRequiredValue entry "trackers"
  let trackers ← parseTrackers serde trackers
  return { id, groupName, streamName, connectionName, createdTime, rule, trackers }

theorem fromRedisStreamEntry_ok {serde : Serde} {entry : FieldMap} {batch : ProcessTrackerBatch} :
    fromRedisStreamEntry serde entry = .ok batch ↔
      getRequiredValue entry "id" = .ok batch.id ∧
      getRequiredValue entry "group_name" = .ok batch.groupName ∧
      getRequiredValue entry "stream_name" = .ok batch.streamName ∧
      getRequiredValue entry "connection_name" = .ok batch.connectionName ∧
      (getRequiredValue entry "created_time" >>= parseCreatedTime) = .ok batch.createdTime ∧
      getRequiredValue entry "rule" = .ok batch.rule ∧
      (getRequiredValue entry "trackers" >>= parseTrackers serde) = .ok batch.trackers := by
  obtain ⟨id, groupName, streamName, connectionName, createdTime, rule, trackers⟩ := batch
  simp only [fromRedisStreamEntry, bind_ok]
  constructor
  · rintro ⟨_, h₁, _, h₂, _, h₃, _, h₄, _, h₅, _, h₆, _, h₇, _, h₈, _, h₉, same⟩
    cases same
    exact ⟨h₁, h₂, h₃, h₄, ⟨_, h₅, h₆⟩, h₇, _, h₈, h₉⟩
  · rintro ⟨h₁, h₂, h₃, h₄, ⟨_, h₅, h₆⟩, h₇, _, h₈, h₉⟩
    exact ⟨_, h₁, _, h₂, _, h₃, _, h₄, _, h₅, _, h₆, _, h₇, _, h₈, _, h₉, rfl⟩

end ProcessTrackerBatch

/- Slices of a list, `size` elements each and the rest last. -/

def chunksFuel {α : Type} (size : Nat) : Nat → List α → List (List α)
  | 0, _ | _, [] => []
  | fuel + 1, x :: xs => (x :: xs).take size :: chunksFuel size fuel ((x :: xs).drop size)

def chunks {α : Type} (size : Nat) (xs : List α) : List (List α) := chunksFuel size xs.length xs

theorem chunksFuel_flatten {α : Type} {size : Nat} (positive : 0 < size) (fuel : Nat)
    (xs : List α) (enough : xs.length ≤ fuel) : (chunksFuel size fuel xs).flatten = xs := by
  induction fuel generalizing xs with
  | zero =>
    rw [List.length_eq_zero_iff.mp (Nat.le_zero.mp enough)]
    rfl
  | succ fuel ih =>
    cases xs with
    | nil => rfl
    | cons x xs =>
      have shorter : ((x :: xs).drop size).length ≤ fuel := by
        rw [List.length_drop]
        omega
      rw [chunksFuel, List.flatten_cons, ih _ shorter, List.take_append_drop]

theorem chunks_flatten {α : Type} {size : Nat} (positive : 0 < size) (xs : List α) :
    (chunks size xs).flatten = xs :=
  chunksFuel_flatten positive xs.length xs (Nat.le_refl _)

/-- With a batch size of zero `chunks` panics, and there are no batches. -/
def divideIntoBatches (batchSize : Nat) (tasks : List ProcessTracker)
    (batchCreationTime : PrimitiveDateTime) (batchId : String) (conf : SchedulerSettings) :
    Option (List ProcessTrackerBatch) :=
  if batchSize = 0 then none
  else some ((chunks batchSize tasks).map fun item => {
    id := batchId
    groupName := conf.consumer.consumerGroup
    streamName := conf.stream
    connectionName := ""
    createdTime := batchCreationTime
    rule := ""
    trackers := item })

theorem divideIntoBatches_trackers {size : Nat} {tasks : List ProcessTracker}
    {now : PrimitiveDateTime} {batchId : String} {conf : SchedulerSettings}
    {batches : List ProcessTrackerBatch}
    (divided : divideIntoBatches size tasks now batchId conf = some batches)
    {batch : ProcessTrackerBatch} (mem : batch ∈ batches) {task : ProcessTracker}
    (ht : task ∈ batch.trackers) : task ∈ tasks := by
  rw [divideIntoBatches] at divided
  split at divided
  · cases divided
  · rename_i positive
    cases divided
    obtain ⟨item, chunk, rfl⟩ := List.mem_map.mp mem
    rw [← chunks_flatten (Nat.pos_of_ne_zero positive) tasks]
    exact List.mem_flatten_of_mem chunk ht

/-- What serde_json keeps of a list of trackers: where the text decodes, at least their ids and
business statuses. -/
structure Serde.Faithful (serde : Serde) : Prop where
  kept : ∀ trackers text read, serde.toString trackers = .ok text → serde.fromStr text = .ok read →
    (read.map fun task => (task.id, task.businessStatus)) =
      trackers.map fun task => (task.id, task.businessStatus)

theorem Serde.Faithful.ids {serde : Serde} (faithful : serde.Faithful)
    {trackers read : List ProcessTracker} {text : String}
    (encoded : serde.toString trackers = .ok text) (decoded : serde.fromStr text = .ok read) :
    read.map ProcessTracker.id = trackers.map ProcessTracker.id := by
  have ids := congrArg (List.map Prod.fst) (faithful.kept trackers text read encoded decoded)
  rwa [List.map_map, List.map_map] at ids

def Contains (serde : Serde) (fields : FieldValuePairs) (id : String) : Prop :=
  ∃ text trackers, ProcessTrackerBatch.getRequiredValue (readFields fields) "trackers" = .ok text ∧
    ProcessTrackerBatch.parseTrackers serde text = .ok trackers ∧
    id ∈ trackers.map ProcessTracker.id

theorem decoded_contains {serde : Serde} {fields : FieldValuePairs} {batch : ProcessTrackerBatch}
    (decoded : ProcessTrackerBatch.fromRedisStreamEntry serde (readFields fields) = .ok batch)
    {task : ProcessTracker} (mem : task ∈ batch.trackers) : Contains serde fields task.id := by
  obtain ⟨_, _, _, _, _, _, trackers⟩ := ProcessTrackerBatch.fromRedisStreamEntry_ok.mp decoded
  obtain ⟨text, found, parsed⟩ := bind_ok.mp trackers
  exact ⟨text, batch.trackers, found, parsed, List.mem_map_of_mem mem⟩

theorem trackers_written {serde : Serde} {batch : ProcessTrackerBatch} {fields : FieldValuePairs}
    (written : batch.toRedisFieldValuePairs serde = .ok fields) :
    ∃ text, serde.toString batch.trackers = .ok text ∧
      ProcessTrackerBatch.getRequiredValue (readFields fields) "trackers" = .ok text := by
  rw [ProcessTrackerBatch.toRedisFieldValuePairs] at written
  split at written
  · cases written
  · rename_i text encoded
    cases written
    exact ⟨text, encoded, rfl⟩

theorem contains_batch {serde : Serde} (faithful : serde.Faithful) {batch : ProcessTrackerBatch}
    {fields : FieldValuePairs} (written : batch.toRedisFieldValuePairs serde = .ok fields)
    {id : String} (contains : Contains serde fields id) :
    id ∈ batch.trackers.map ProcessTracker.id := by
  obtain ⟨text, encoded, found⟩ := trackers_written written
  obtain ⟨text', read, found', parsed, mem⟩ := contains
  cases found.symm.trans found'
  exact faithful.ids encoded (ProcessTrackerBatch.parseTrackers_ok.mp parsed) ▸ mem

/-- The text of a list of trackers tells their ids, whether or not it decodes. -/
def Serde.TellsIds (serde : Serde) : Prop :=
  ∀ trackers trackers' text, serde.toString trackers = .ok text →
    serde.toString trackers' = .ok text →
    trackers.map ProcessTracker.id = trackers'.map ProcessTracker.id

def CarriesTask (serde : Serde) (fields : FieldValuePairs) (id : String) : Prop :=
  ∃ text trackers, ProcessTrackerBatch.getRequiredValue (readFields fields) "trackers" = .ok text ∧
    serde.toString trackers = .ok text ∧ id ∈ trackers.map ProcessTracker.id

theorem carriesTask_batch {serde : Serde} (tells : serde.TellsIds) {batch : ProcessTrackerBatch}
    {fields : FieldValuePairs} (written : batch.toRedisFieldValuePairs serde = .ok fields)
    (id : String) : CarriesTask serde fields id ↔ id ∈ batch.trackers.map ProcessTracker.id := by
  obtain ⟨text, encoded, found⟩ := trackers_written written
  constructor
  · rintro ⟨text', trackers, found', encoded', mem⟩
    cases found.symm.trans found'
    exact tells trackers batch.trackers text encoded' encoded ▸ mem
  · exact fun mem => ⟨text, batch.trackers, found, encoded, mem⟩

/- One task that is due, and the JSON text of a batch of it alone. -/

def dueTask : ProcessTracker where
  id := "sync"
  name := none
  tag := []
  runner := none
  retryCount := 0
  scheduleTime := some 0
  rule := ""
  trackingData := "null"
  businessStatus := "Pending"
  status := .new
  event := []
  createdAt := 0
  updatedAt := 0

def dueTaskText : String :=
  "[\x7b\"id\":\"sync\",\"name\":null,\"tag\":[],\"runner\":null,\"retry_count\":0," ++
    "\"schedule_time\":\"1970-01-01T00:00:00.000Z\",\"rule\":\"\",\"tracking_data\":null," ++
    "\"business_status\":\"Pending\",\"status\":\"new\",\"event\":[]," ++
    "\"created_at\":\"1970-01-01T00:00:00.000Z\"," ++
    "\"updated_at\":\"1970-01-01T00:00:00.000Z\"\x7d]"

/-- serde_json as far as this batch goes. -/
def dueTaskSerde : Serde where
  toString := fun trackers => if trackers = [dueTask] then .ok dueTaskText else .error ()
  fromStr := fun text => if text = dueTaskText then .ok [dueTask] else .error ()

theorem dueTaskSerde_faithful : dueTaskSerde.Faithful where
  kept := by
    intro trackers text read encoded decoded
    simp only [dueTaskSerde] at encoded decoded
    split at encoded
    · rename_i same
      cases encoded
      rw [if_pos rfl] at decoded
      cases decoded
      rw [same]
    · cases encoded

theorem dueTaskSerde_tellsIds : dueTaskSerde.TellsIds := by
  intro trackers trackers' text encoded encoded'
  simp only [dueTaskSerde] at encoded encoded'
  split at encoded <;> split at encoded'
  · rename_i same same'
    rw [same, same']
  · cases encoded'
  · cases encoded
  · cases encoded

end Mercado.Scheduler
