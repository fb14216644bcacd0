import Mercado.Scheduler.Batch

/-! What a batch keeps on its way through the stream: everything, up to the parts of a second
that its texts leave out. -/
namespace Mercado.Scheduler
open Results SerdeJson

/-- ISO 8601 with three decimals: the text of a date in UTC, and the instant that a text
stands for. -/
structure Iso8601 where
  format : PrimitiveDateTime → Except String String
  parse : String → Option PrimitiveDateTime

def Iso8601.serialize (iso : Iso8601) (dateTime : PrimitiveDateTime) : Except Error Value :=
  match iso.format dateTime with
  | .ok s => .ok (.string s)
  | .error e => .error (.custom e)

/-- `to_offset` panics where the instant is no date of `time`. -/
def Iso8601.deserialize (iso : Iso8601) : Value → Except Error PrimitiveDateTime
  | .string s =>
    match iso.parse s with
    | some t =>
      if PrimitiveDateTime.valid t then .ok t
      else .error (.custom "local datetime out of valid range")
    | none => .error .invalidValue
  | _ => .error .invalidType

def ProcessTrackerStatus.name : ProcessTrackerStatus → String
  | .processing => "processing"
  | .new => "new"
  | .pending => "pending"
  | .processStarted => "process_started"
  | .finish => "finish"

def ProcessTrackerStatus.deserialize (j : Value) : Except Error ProcessTrackerStatus := do
  match ← variantName j with
  | "processing" => return .processing
  | "new" => return .new
  | "pending" => return .pending
  | "process_started" => return .processStarted
  | "finish" => return .finish
  | name => .error (.unknownVariant name)

namespace ProcessTracker

variable (text : Text) (iso : Iso8601)

def fieldNames : List String :=
  ["id", "name", "tag", "runner", "retry_count", "schedule_time", "rule", "tracking_data",
    "business_status", "status", "event", "created_at", "updated_at"]

def fields (task : ProcessTracker) (scheduleTime trackingData createdAt updatedAt : Value) :
    List (String × Value) :=
  [("id", .string task.id),
    ("name", task.name.elim .null .string),
    ("tag", .array (task.tag.map .string)),
    ("runner", task.runner.elim .null .string),
    ("retry_count", ofI32 task.retryCount),
    ("schedule_time", scheduleTime),
    ("rule", .string task.rule),
    ("tracking_data", trackingData),
    ("business_status", .string task.businessStatus),
    ("status", .string task.status.name),
    ("event", .array (task.event.map .string)),
    ("created_at", createdAt),
    ("updated_at", updatedAt)]

def serialize (task : ProcessTracker) : Except Error Value := do
  let scheduleTime ← ofOption iso.serialize task.scheduleTime
  let trackingData ← text.fromStr task.trackingData
  let createdAt ← iso.serialize task.createdAt
  let updatedAt ← iso.serialize task.updatedAt
  return .object (task.fields scheduleTime trackingData createdAt updatedAt)

def readTrackingData (j : Value) : Except Error String := .ok (text.toString j.collect)

def deserialize (j : Value) : Except Error ProcessTracker := do
  let entries ← struct fieldNames j
  let id ← get "id" asString entries
  let name ← getOption "name" asString entries
  let tag ← get "tag" (asArray asString) entries
  let runner ← getOption "runner" asString entries
  let retryCount ← get "retry_count" asI32 entries
  let scheduleTime ← getOption "schedule_time" iso.deserialize entries
  let rule ← get "rule" asString entries
  let trackingData ← get "tracking_data" (readTrackingData text) entries
  let businessStatus ← get "business_status" asString entries
  let status ← get "status" ProcessTrackerStatus.deserialize entries
  let event ← get "event" (asArray asString) entries
  let createdAt ← get "created_at" iso.deserialize entries
  let updatedAt ← get "updated_at" iso.deserialize entries
  return { id, name, tag, runner, retryCount, scheduleTime, rule, trackingData, businessStatus,
           status, event, createdAt, updatedAt }

end ProcessTracker

def trackerSerde (text : Text) (iso : Iso8601) : Serde where
  toString trackers :=
    match trackers.mapM (ProcessTracker.serialize text iso) with
    | .ok items => .ok (text.toString (.array items))
    | .error _ => .error ()
  fromStr s :=
    match text.fromStr s >>= asArray (ProcessTracker.deserialize text iso) with
    | .ok trackers => .ok trackers
    | .error _ => .error ()

/- What is lost. -/

def nanosPerMilli : Int := 1000000

def PrimitiveDateTime.unixMillis (t : PrimitiveDateTime) : Int := t / nanosPerMilli

def PrimitiveDateTime.toMillis (t : PrimitiveDateTime) : PrimitiveDateTime :=
  t.unixMillis * nanosPerMilli

def PrimitiveDateTime.toSeconds (t : PrimitiveDateTime) : PrimitiveDateTime :=
  t / nanosPerSecond * nanosPerSecond

def ProcessTracker.toMillis (task : ProcessTracker) : ProcessTracker :=
  { task with
    scheduleTime := task.scheduleTime.map PrimitiveDateTime.toMillis
    createdAt := task.createdAt.toMillis
    updatedAt := task.updatedAt.toMillis }

def ProcessTrackerBatch.truncated (batch : ProcessTrackerBatch) : ProcessTrackerBatch :=
  { batch with
    createdTime := batch.createdTime.toSeconds
    trackers := batch.trackers.map ProcessTracker.toMillis }

/-- The years that ISO 8601 writes with four digits. -/
def PrimitiveDateTime.FourDigits (t : PrimitiveDateTime) : Prop :=
  -62167219200 * nanosPerSecond ≤ t ∧ t < 253402300800 * nanosPerSecond

/-- The text of a date says its milliseconds and nothing finer. -/
structure Iso8601.Exact (iso : Iso8601) : Prop where
  truncates : ∀ t : PrimitiveDateTime, t.FourDigits → iso.format t.toMillis = iso.format t
  reads : ∀ t : PrimitiveDateTime, t.FourDigits →
    ∃ s, iso.format t = .ok s ∧ iso.parse s = some t.toMillis

/-- A text that `to_string` writes of a `Value`. -/
def Document (text : Text) (s : String) : Prop :=
  ∃ j : Value, j.collect = j ∧ text.toString j = s ∧ text.fromStr s = .ok j

structure Writable (text : Text) (task : ProcessTracker) : Prop where
  scheduleTime : ∀ t ∈ task.scheduleTime, t.FourDigits
  createdAt : task.createdAt.FourDigits
  updatedAt : task.updatedAt.FourDigits
  trackingData : Document text task.trackingData

def Describes (text : Text) (iso : Iso8601) (entries : List (String × Value))
    (task : ProcessTracker) : Prop :=
  Holds "id" asString task.id entries ∧
  HoldsOption "name" asString task.name entries ∧
  Holds "tag" (asArray asString) task.tag entries ∧
  HoldsOption "runner" asString task.runner entries ∧
  Holds "retry_count" asI32 task.retryCount entries ∧
  HoldsOption "schedule_time" iso.deserialize task.scheduleTime entries ∧
  Holds "rule" asString task.rule entries ∧
  Holds "tracking_data" (ProcessTracker.readTrackingData text) task.trackingData entries ∧
  Holds "business_status" asString task.businessStatus entries ∧
  Holds "status" ProcessTrackerStatus.deserialize task.status entries ∧
  Holds "event" (asArray asString) task.event entries ∧
  Holds "created_at" iso.deserialize task.createdAt entries ∧
  Holds "updated_at" iso.deserialize task.updatedAt entries

def TrackerJson (text : Text) (iso : Iso8601) (j : Value) (task : ProcessTracker) : Prop :=
  ∃ entries, struct ProcessTracker.fieldNames j = .ok entries ∧ Describes text iso entries task

section Trackers

variable {text : Text} {iso : Iso8601}

theorem deserialize_ok {j : Value} {task : ProcessTracker} :
    ProcessTracker.deserialize text iso j = .ok task ↔ TrackerJson text iso j task := by
  obtain ⟨id, name, tag, runner, retryCount, scheduleTime, rule, trackingData, businessStatus,
    status, event, createdAt, updatedAt⟩ := task
  simp only [ProcessTracker.deserialize, bind_ok, get_ok, getOption_ok, TrackerJson, Describes]
  constructor
  · rintro ⟨entries, opened, _, h₁, _, h₂, _, h₃, _, h₄, _, h₅, _, h₆, _, h₇, _, h₈, _, h₉, _,
      h₁₀, _, h₁₁, _, h₁₂, _, h₁₃, same⟩
    cases same
    exact ⟨entries, opened, h₁, h₂, h₃, h₄, h₅, h₆, h₇, h₈, h₉, h₁₀, h₁₁, h₁₂, h₁₃⟩
  · rintro ⟨entries, opened, h₁, h₂, h₃, h₄, h₅, h₆, h₇, h₈, h₉, h₁₀, h₁₁, h₁₂, h₁₃⟩
    exact ⟨entries, opened, _, h₁, _, h₂, _, h₃, _, h₄, _, h₅, _, h₆, _, h₇, _, h₈, _, h₉, _,
      h₁₀, _, h₁₁, _, h₁₂, _, h₁₃, rfl⟩

theorem status_name (status : ProcessTrackerStatus) :
    ProcessTrackerStatus.deserialize (.string status.name) = .ok status := by
  cases status <;> rfl

theorem strings_ok (xs : List String) : asArray asString (.array (xs.map .string)) = .ok xs := by
  apply mapM_ok.mpr
  rw [List.forall₂_map_left_iff, List.forall₂_same]
  exact fun _ _ => rfl

theorem string_option (o : Option String) :
    asOption asString (o.elim .null .string) = .ok o := by
  cases o <;> rfl

theorem fields_describe (task : ProcessTracker) {scheduleTime trackingData createdAt
    updatedAt : Value} {o : Option PrimitiveDateTime} {d : String} {c u : PrimitiveDateTime}
    (schedule : asOption iso.deserialize scheduleTime = .ok o)
    (data : text.toString trackingData.collect = d)
    (created : iso.deserialize createdAt = .ok c) (updated : iso.deserialize updatedAt = .ok u) :
    TrackerJson text iso (.object (task.fields scheduleTime trackingData createdAt updatedAt))
      { task with scheduleTime := o, trackingData := d, createdAt := c, updatedAt := u } := by
  have distinct : ((task.fields scheduleTime trackingData createdAt updatedAt).map
      Prod.fst).Nodup := by
    change ProcessTracker.fieldNames.Nodup
    decide
  refine ⟨_, rfl, .self distinct (.string task.id) ?_ rfl,
    .inr (.self distinct _ ?_ (string_option _)), .self distinct _ ?_ (strings_ok _),
    .inr (.self distinct _ ?_ (string_option _)), .self distinct _ ?_ (asI32_ofI32 _),
    .inr (.self distinct _ ?_ schedule), .self distinct (.string task.rule) ?_ rfl,
    .self distinct _ ?_ (congrArg Except.ok data),
    .self distinct (.string task.businessStatus) ?_ rfl,
    .self distinct _ ?_ (status_name _), .self distinct _ ?_ (strings_ok _),
    .self distinct _ ?_ created, .self distinct _ ?_ updated⟩
  all_goals simp [ProcessTracker.fields]

/- Dates. -/

theorem valid_iff {t : Int} : PrimitiveDateTime.valid t = true ↔
    -377705116800000000000 ≤ t ∧ t < 253402300800000000000 := by
  unfold PrimitiveDateTime.valid nanosPerSecond
  rw [Bool.and_eq_true, decide_eq_true_iff, decide_eq_true_iff]
  exact Iff.rfl

theorem fourDigits_iff {t : Int} : PrimitiveDateTime.FourDigits t ↔
    -62167219200000000000 ≤ t ∧ t < 253402300800000000000 := Iff.rfl

theorem unixMillis_eq (t : Int) : PrimitiveDateTime.unixMillis t = t / 1000000 := rfl

theorem toMillis_eq (t : Int) : PrimitiveDateTime.toMillis t = t / 1000000 * 1000000 := rfl

theorem toSeconds_eq (t : Int) :
    PrimitiveDateTime.toSeconds t = t / 1000000000 * 1000000000 := rfl

theorem unixTimestamp_eq (t : Int) : PrimitiveDateTime.unixTimestamp t = t / 1000000000 := rfl

theorem toMillis_fourDigits {t : PrimitiveDateTime} (inside : t.FourDigits) :
    t.toMillis.FourDigits := by
  rw [fourDigits_iff] at inside
  rw [fourDigits_iff, toMillis_eq]
  omega

theorem fourDigits_valid {t : PrimitiveDateTime} (inside : t.FourDigits) :
    PrimitiveDateTime.valid t = true := by
  rw [fourDigits_iff] at inside
  rw [valid_iff]
  omega

theorem toSeconds_valid {t : PrimitiveDateTime} (inside : PrimitiveDateTime.valid t = true) :
    PrimitiveDateTime.valid t.toSeconds = true := by
  rw [valid_iff] at inside
  rw [valid_iff, toSeconds_eq]
  omega

theorem toSeconds_unixTimestamp (t : PrimitiveDateTime) :
    t.toSeconds.unixTimestamp = t.unixTimestamp := by
  rw [unixTimestamp_eq, unixTimestamp_eq, toSeconds_eq]
  omega

theorem unixTimestamp_range {t : PrimitiveDateTime} (inside : PrimitiveDateTime.valid t = true) :
    -2 ^ 63 ≤ t.unixTimestamp ∧ t.unixTimestamp < 2 ^ 63 := by
  rw [valid_iff] at inside
  rw [unixTimestamp_eq]
  omega

theorem Iso8601.Exact.date (exact : iso.Exact) {t : PrimitiveDateTime} (inside : t.FourDigits) :
    ∃ s, iso.serialize t = .ok (.string s) ∧ iso.deserialize (.string s) = .ok t.toMillis ∧
      iso.serialize t.toMillis = .ok (.string s) := by
  obtain ⟨s, written, read⟩ := exact.reads t inside
  have valid := fourDigits_valid (toMillis_fourDigits inside)
  refine ⟨s, ?_, ?_, ?_⟩
  · simp only [Iso8601.serialize, written]
  · simp only [Iso8601.deserialize, read, valid, if_true]
  · simp only [Iso8601.serialize, exact.truncates t inside, written]

theorem Iso8601.Exact.option (exact : iso.Exact) {o : Option PrimitiveDateTime}
    (inside : ∀ t ∈ o, t.FourDigits) :
    ∃ j, ofOption iso.serialize o = .ok j ∧
      asOption iso.deserialize j = .ok (o.map PrimitiveDateTime.toMillis) ∧
      ofOption iso.serialize (o.map PrimitiveDateTime.toMillis) = .ok j := by
  cases o with
  | none => exact ⟨.null, rfl, rfl, rfl⟩
  | some t =>
    obtain ⟨s, written, read, again⟩ := exact.date (inside t rfl)
    exact ⟨.string s, written, congrArg (Except.map some) read, again⟩

/- Trackers. -/

theorem tracker_round_trip (exact : iso.Exact) {task : ProcessTracker}
    (writable : Writable text task) :
    ∃ j, task.serialize text iso = .ok j ∧
      ProcessTracker.deserialize text iso j = .ok task.toMillis ∧
      task.toMillis.serialize text iso = .ok j := by
  obtain ⟨j, schedule, readSchedule, scheduleAgain⟩ := exact.option writable.scheduleTime
  obtain ⟨c, created, readCreated, createdAgain⟩ := exact.date writable.createdAt
  obtain ⟨u, updated, readUpdated, updatedAgain⟩ := exact.date writable.updatedAt
  obtain ⟨d, collected, printed, data⟩ := writable.trackingData
  have described := fields_describe task readSchedule (collected.symm ▸ printed) readCreated
    readUpdated
  refine ⟨.object (task.fields j d (.string c) (.string u)), ?_, deserialize_ok.mpr described, ?_⟩
  · simp only [ProcessTracker.serialize, bind_ok]
    exact ⟨j, schedule, d, data, _, created, _, updated, rfl⟩
  · simp only [ProcessTracker.serialize, bind_ok]
    exact ⟨j, scheduleAgain, d, data, _, createdAgain, _, updatedAgain, rfl⟩

theorem trackers_round_trip (exact : iso.Exact) {trackers : List ProcessTracker}
    (writable : ∀ task ∈ trackers, Writable text task) :
    ∃ items, trackers.mapM (ProcessTracker.serialize text iso) = .ok items ∧
      items.mapM (ProcessTracker.deserialize text iso) =
        .ok (trackers.map ProcessTracker.toMillis) ∧
      (trackers.map ProcessTracker.toMillis).mapM (ProcessTracker.serialize text iso) =
        .ok items := by
  simp only [mapM_ok]
  induction trackers with
  | nil => exact ⟨[], .nil, .nil, .nil⟩
  | cons task trackers ih =>
    obtain ⟨j, written, read, again⟩ :=
      tracker_round_trip exact (writable task List.mem_cons_self)
    obtain ⟨items, laterWritten, laterRead, laterAgain⟩ :=
      ih fun other mem => writable other (List.mem_cons_of_mem _ mem)
    exact ⟨j :: items, .cons written laterWritten, .cons read laterRead, .cons again laterAgain⟩

theorem trackerSerde_fromStr {s : String} {trackers : List ProcessTracker} :
    (trackerSerde text iso).fromStr s = .ok trackers ↔
      ∃ items, text.fromStr s = .ok (.array items) ∧
        List.Forall₂ (TrackerJson text iso) items trackers := by
  have read : (trackerSerde text iso).fromStr s = .ok trackers ↔
      text.fromStr s >>= asArray (ProcessTracker.deserialize text iso) = .ok trackers := by
    simp only [trackerSerde]
    split <;> rename_i result <;> simp [result]
  simp only [read, bind_ok, asArray_ok, deserialize_ok]
  constructor
  · rintro ⟨_, parsed, items, rfl, described⟩
    exact ⟨items, parsed, described⟩
  · rintro ⟨items, parsed, described⟩
    exact ⟨_, parsed, items, rfl, described⟩

/- What deliveries rest on: whatever is read of what was written has its ids and business
statuses. -/

theorem serialize_fields {task : ProcessTracker} {j : Value}
    (written : task.serialize text iso = .ok j) :
    ∃ schedule data created updated, j = .object (task.fields schedule data created updated) := by
  simp only [ProcessTracker.serialize, bind_ok] at written
  obtain ⟨schedule, -, data, -, created, -, updated, -, same⟩ := written
  exact ⟨schedule, data, created, updated, (Except.ok.inj same).symm⟩

theorem written_tracker {task read : ProcessTracker} {j : Value}
    (written : task.serialize text iso = .ok j) (described : TrackerJson text iso j read) :
    (read.id, read.businessStatus) = (task.id, task.businessStatus) := by
  obtain ⟨schedule, data, created, updated, rfl⟩ := serialize_fields written
  obtain ⟨_, ⟨⟩, id, _, _, _, _, _, _, _, status, _⟩ := described
  have distinct : ((task.fields schedule data created updated).map Prod.fst).Nodup := by
    change ProcessTracker.fieldNames.Nodup
    decide
  have sameId : asString (.string task.id) = .ok read.id :=
    id.value distinct (by simp [ProcessTracker.fields])
  have sameStatus : asString (.string task.businessStatus) = .ok read.businessStatus :=
    status.value distinct (by simp [ProcessTracker.fields])
  exact Prod.ext (Except.ok.inj sameId).symm (Except.ok.inj sameStatus).symm

theorem written_trackers {trackers read : List ProcessTracker} {items : List Value}
    (written : List.Forall₂ (fun task j => task.serialize text iso = .ok j) trackers items)
    (described : List.Forall₂ (TrackerJson text iso) items read) :
    (read.map fun task => (task.id, task.businessStatus)) =
      trackers.map fun task => (task.id, task.businessStatus) := by
  induction written generalizing read with
  | nil =>
    cases described
    rfl
  | cons first _ ih =>
    cases described with
    | cons json later => rw [List.map_cons, List.map_cons, written_tracker first json, ih later]

theorem written_ids {trackers others : List ProcessTracker} {items : List Value}
    (written : List.Forall₂ (fun task j => task.serialize text iso = .ok j) trackers items)
    (again : List.Forall₂ (fun task j => task.serialize text iso = .ok j) others items) :
    trackers.map ProcessTracker.id = others.map ProcessTracker.id := by
  induction written generalizing others with
  | nil =>
    cases again
    rfl
  | cons first _ ih =>
    cases again with
    | cons other later =>
      obtain ⟨_, _, _, _, rfl⟩ := serialize_fields first
      obtain ⟨_, _, _, _, same⟩ := serialize_fields other
      have fields := List.cons.inj (Value.object.inj same)
      rw [List.map_cons, List.map_cons, ih later, Value.string.inj (Prod.mk.inj fields.1).2]

theorem trackerSerde_toString {trackers : List ProcessTracker} {s : String}
    (encoded : (trackerSerde text iso).toString trackers = .ok s) :
    ∃ items, trackers.mapM (ProcessTracker.serialize text iso) = .ok items ∧
      text.toString (.array items) = s := by
  simp only [trackerSerde] at encoded
  split at encoded
  · rename_i items written
    exact ⟨items, written, Except.ok.inj encoded⟩
  · cases encoded

/-- The lists of trackers keep what the results about deliveries ask of them, however dates are
written. -/
theorem trackerSerde_faithful (readsBack : ∀ (trackers : List ProcessTracker) items,
      trackers.mapM (ProcessTracker.serialize text iso) = .ok items →
        text.fromStr (text.toString (.array items)) = .ok (.array items)) :
    (trackerSerde text iso).Faithful ∧ (trackerSerde text iso).TellsIds := by
  constructor
  · constructor
    intro trackers s read encoded decoded
    obtain ⟨items, written, rfl⟩ := trackerSerde_toString encoded
    obtain ⟨items', parsed, described⟩ := trackerSerde_fromStr.mp decoded
    cases (readsBack trackers items written).symm.trans parsed
    exact written_trackers (mapM_ok.mp written) described
  · intro trackers others s encoded encoded'
    obtain ⟨items, written, rfl⟩ := trackerSerde_toString encoded
    obtain ⟨items', written', same⟩ := trackerSerde_toString encoded'
    have parsed := readsBack others items' written'
    rw [same, readsBack trackers items written] at parsed
    cases parsed
    exact written_ids (mapM_ok.mp written) (mapM_ok.mp written')

end Trackers

/- Batches. -/

section Batches

open ProcessTrackerBatch

variable {text : Text} {iso : Iso8601}

def valueOf (entry : FieldMap) (name : String) : Option String :=
  (entry.reverse.lookup name).join

theorem getRequiredValue_ok {entry : FieldMap} {name s : String} :
    getRequiredValue entry name = .ok s ↔ valueOf entry name = some s := by
  unfold getRequiredValue valueOf
  split <;> simp_all

theorem parseCreatedTime_ok {s : String} {t : PrimitiveDateTime} :
    parseCreatedTime s = .ok t ↔
      ∃ n, I64Numeral s n ∧ PrimitiveDateTime.valid (n * nanosPerSecond) = true ∧
        t = n * nanosPerSecond := by
  unfold parseCreatedTime
  cases parsed : parseI64 s with
  | none =>
    simp only [reduceCtorEq, false_iff, not_exists]
    rintro n ⟨numeral, -, -⟩
    cases parsed.symm.trans (parseI64_iff.mpr numeral)
  | some n =>
    have unique : ∀ m, I64Numeral s m ↔ n = m := fun m => by
      rw [← parseI64_iff, parsed, Option.some.injEq]
    simp only [unique, exists_eq_left']
    split
    · rename_i valid
      rw [Except.ok.injEq, eq_comm, and_iff_right valid]
    · rename_i invalid
      exact ⟨nofun, fun h => absurd h.1 invalid⟩

theorem fromRedisStreamEntry_iff {entry : FieldMap} {batch : ProcessTrackerBatch} :
    fromRedisStreamEntry (trackerSerde text iso) entry = .ok batch ↔
      valueOf entry "id" = some batch.id ∧
      valueOf entry "group_name" = some batch.groupName ∧
      valueOf entry "stream_name" = some batch.streamName ∧
      valueOf entry "connection_name" = some batch.connectionName ∧
      (∃ s n, valueOf entry "created_time" = some s ∧ I64Numeral s n ∧
        PrimitiveDateTime.valid (n * nanosPerSecond) = true ∧
        batch.createdTime = n * nanosPerSecond) ∧
      valueOf entry "rule" = some batch.rule ∧
      ∃ s items, valueOf entry "trackers" = some s ∧ text.fromStr s = .ok (.array items) ∧
        List.Forall₂ (TrackerJson text iso) items batch.trackers := by
  simp only [fromRedisStreamEntry_ok, bind_ok, getRequiredValue_ok, parseCreatedTime_ok,
    parseTrackers_ok, trackerSerde_fromStr, exists_and_left]

theorem fromRedisStreamEntry_error {serde : Serde} {entry : FieldMap} :
    (∃ e, fromRedisStreamEntry serde entry = .error e) ↔
      ∀ batch, fromRedisStreamEntry serde entry ≠ .ok batch := by
  cases fromRedisStreamEntry serde entry <;> simp

theorem toRedisFieldValuePairs_ok (batch : ProcessTrackerBatch) {items : List Value}
    (written : batch.trackers.mapM (ProcessTracker.serialize text iso) = .ok items) :
    batch.toRedisFieldValuePairs (trackerSerde text iso) = .ok [
      ("id", batch.id),
      ("group_name", batch.groupName),
      ("stream_name", batch.streamName),
      ("connection_name", batch.connectionName),
      ("created_time", ToString.toString batch.createdTime.unixTimestamp),
      ("rule", batch.rule),
      ("trackers", text.toString (.array items))] := by
  simp only [toRedisFieldValuePairs, trackerSerde, written]

theorem written_batch_read (exact : iso.Exact) {batch : ProcessTrackerBatch}
    (valid : PrimitiveDateTime.valid batch.createdTime = true)
    (writable : ∀ task ∈ batch.trackers, Writable text task)
    (readsBack : ∀ items, batch.trackers.mapM (ProcessTracker.serialize text iso) = .ok items →
      text.fromStr (text.toString (.array items)) = .ok (.array items)) :
    ∃ pairs, batch.toRedisFieldValuePairs (trackerSerde text iso) = .ok pairs ∧
      fromRedisStreamEntry (trackerSerde text iso) (readFields pairs) = .ok batch.truncated ∧
      batch.truncated.toRedisFieldValuePairs (trackerSerde text iso) = .ok pairs := by
  obtain ⟨items, written, read, again⟩ := trackers_round_trip exact writable
  refine ⟨_, toRedisFieldValuePairs_ok batch written, fromRedisStreamEntry_iff.mpr ?_, ?_⟩
  · obtain ⟨low, high⟩ := unixTimestamp_range valid
    have numeral := parseI64_iff.mp (parseI64_toString low high)
    have described : List.Forall₂ (TrackerJson text iso) items batch.truncated.trackers :=
      (mapM_ok.mp read).imp fun _ _ => deserialize_ok.mp
    exact ⟨rfl, rfl, rfl, rfl, ⟨_, _, rfl, numeral, toSeconds_valid valid, rfl⟩, rfl,
      _, items, rfl, readsBack items written, described⟩
  · rw [toRedisFieldValuePairs_ok batch.truncated again]
    simp only [truncated, toSeconds_unixTimestamp]

theorem fromRedisStreamEntry_unread_iff (entry : FieldMap) :
    (∃ e, fromRedisStreamEntry (trackerSerde text iso) entry = .error e) ↔
      (∃ name ∈ ["id", "group_name", "stream_name", "connection_name", "created_time", "rule",
        "trackers"], valueOf entry name = none) ∨
      (∃ s, valueOf entry "created_time" = some s ∧
        ∀ n, I64Numeral s n → PrimitiveDateTime.valid (n * nanosPerSecond) = false) ∨
      ∃ s, valueOf entry "trackers" = some s ∧
        ∀ items trackers, text.fromStr s = .ok (.array items) →
          ¬ List.Forall₂ (TrackerJson text iso) items trackers := by
  rw [fromRedisStreamEntry_error]
  constructor
  · intro unread
    by_contra readable
    simp only [not_or, not_exists, not_and, not_forall, not_not, exists_prop] at readable
    obtain ⟨there, times, lists⟩ := readable
    have found : ∀ name ∈ ["id", "group_name", "stream_name", "connection_name",
        "created_time", "rule", "trackers"], ∃ s, valueOf entry name = some s :=
      fun name mem => Option.ne_none_iff_exists'.mp (there name mem)
    obtain ⟨id, hasId⟩ := found "id" (by simp)
    obtain ⟨groupName, hasGroupName⟩ := found "group_name" (by simp)
    obtain ⟨streamName, hasStreamName⟩ := found "stream_name" (by simp)
    obtain ⟨connectionName, hasConnectionName⟩ := found "connection_name" (by simp)
    obtain ⟨time, hasTime⟩ := found "created_time" (by simp)
    obtain ⟨rule, hasRule⟩ := found "rule" (by simp)
    obtain ⟨list, hasList⟩ := found "trackers" (by simp)
    obtain ⟨n, numeral, valid⟩ := times time hasTime
    obtain ⟨items, trackers, parsed, described⟩ := lists list hasList
    refine unread ⟨id, groupName, streamName, connectionName, n * nanosPerSecond, rule,
      trackers⟩ (fromRedisStreamEntry_iff.mpr ?_)
    exact ⟨hasId, hasGroupName, hasStreamName, hasConnectionName,
      ⟨time, n, hasTime, numeral, by simpa using valid, rfl⟩, hasRule,
      list, items, hasList, parsed, described⟩
  · intro unreadable batch read
    obtain ⟨hasId, hasGroupName, hasStreamName, hasConnectionName,
      ⟨time, n, hasTime, numeral, valid, -⟩, hasRule, list, items, hasList, parsed,
      described⟩ := fromRedisStreamEntry_iff.mp read
    rcases unreadable with ⟨name, known, missing⟩ | ⟨s, found, other⟩ | ⟨s, found, other⟩
    · simp only [List.mem_cons, List.not_mem_nil, or_false] at known
      rcases known with rfl | rfl | rfl | rfl | rfl | rfl | rfl <;> simp_all
    · cases hasTime.symm.trans found
      exact Bool.false_ne_true ((other n numeral).symm.trans valid)
    · cases hasList.symm.trans found
      exact other items batch.trackers parsed described

/-- A batch that was written is read to the second, and its trackers to the millisecond; it is
written again as it was. A field map cannot be read only if a field is missing or null, if the
time is no number of seconds of a date, or if the trackers are no list of trackers. -/
theorem batch_round_trip (text : Text) (iso : Iso8601) :
    (iso.Exact → ∀ batch : ProcessTrackerBatch,
      PrimitiveDateTime.valid batch.createdTime = true →
      (∀ task ∈ batch.trackers, Writable text task) →
      (∀ items, batch.trackers.mapM (ProcessTracker.serialize text iso) = .ok items →
        text.fromStr (text.toString (.array items)) = .ok (.array items)) →
      ∃ pairs, batch.toRedisFieldValuePairs (trackerSerde text iso) = .ok pairs ∧
        fromRedisStreamEntry (trackerSerde text iso) (readFields pairs) = .ok batch.truncated ∧
        batch.truncated.toRedisFieldValuePairs (trackerSerde text iso) = .ok pairs) ∧
    ∀ entry : FieldMap,
      (∃ e, fromRedisStreamEntry (trackerSerde text iso) entry = .error e) ↔
        (∃ name ∈ ["id", "group_name", "stream_name", "connection_name", "created_time", "rule",
          "trackers"], valueOf entry name = none) ∨
        (∃ s, valueOf entry "created_time" = some s ∧
          ∀ n, I64Numeral s n → PrimitiveDateTime.valid (n * nanosPerSecond) = false) ∨
        ∃ s, valueOf entry "trackers" = some s ∧
          ∀ items trackers, text.fromStr s = .ok (.array items) →
            ¬ List.Forall₂ (TrackerJson text iso) items trackers := by
  constructor
  · intro exact batch valid writable readsBack
    exact written_batch_read exact valid writable readsBack
  · exact fromRedisStreamEntry_unread_iff

end Batches

/- A batch before the epoch, with a tracker whose dates are finer than a millisecond. -/

def epochText : String := "1970-01-01T00:00:00.000Z"

/-- ISO 8601 on the millisecond of the epoch; of other dates the milliseconds in decimal. -/
def epochIso : Iso8601 where
  format t := if t.unixMillis = 0 then .ok epochText else .ok (ToString.toString t.unixMillis)
  parse s := if s = epochText then some 0 else (parseI64 s).map (· * nanosPerMilli)

theorem epochIso_exact : epochIso.Exact where
  truncates := by
    intro t inside
    have same : t.toMillis.unixMillis = t.unixMillis := Int.mul_ediv_cancel _ (by decide)
    simp only [epochIso, same]
  reads := by
    intro t inside
    by_cases epoch : t.unixMillis = 0
    · have truncated : t.toMillis = 0 := by
        rw [PrimitiveDateTime.toMillis, epoch]
        rfl
      exact ⟨epochText, if_pos epoch, by simp [epochIso, truncated]⟩
    · have range : -2 ^ 63 ≤ t.unixMillis ∧ t.unixMillis < 2 ^ 63 := by
        rw [fourDigits_iff] at inside
        rw [unixMillis_eq]
        omega
      have parsed := parseI64_toString range.1 range.2
      have noNumeral : parseI64 epochText = none := by decide
      have other : ToString.toString t.unixMillis ≠ epochText := by
        intro same
        rw [same, noNumeral] at parsed
        cases parsed
      refine ⟨_, if_neg epoch, ?_⟩
      simp only [epochIso, if_neg other, parsed, Option.map_some]
      rfl

def earlyTask : ProcessTracker := { dueTask with createdAt := 1, updatedAt := 400000 }

def earlyBatch : ProcessTrackerBatch where
  id := "batch"
  groupName := "group"
  streamName := "stream"
  connectionName := ""
  createdTime := -1
  rule := ""
  trackers := [earlyTask]

def earlyItem : Value :=
  .object (earlyTask.fields (.string epochText) .null (.string epochText) (.string epochText))

def earlyText : Text where
  toString
    | .null => "null"
    | _ => dueTaskText
  fromStr s :=
    if s = "null" then .ok .null
    else if s = dueTaskText then .ok (.array [earlyItem])
    else .error .invalidValue

theorem opens_append {s t : String} {c : Char} (opens : s.toList.head? = some c) :
    (s ++ t).toList.head? = some c := by
  rw [String.toList_append, List.head?_append, opens, Option.some_or]

theorem dueTaskText_not_null : dueTaskText ≠ "null" := by
  have opens : dueTaskText.toList.head? = some '[' := by
    unfold dueTaskText
    iterate 4 apply opens_append
    rfl
  intro same
  rw [same] at opens
  exact absurd opens (by decide)

theorem batch_round_trip_before_epoch :
    (∃ pairs, earlyBatch.toRedisFieldValuePairs (trackerSerde earlyText epochIso) = .ok pairs ∧
      ProcessTrackerBatch.fromRedisStreamEntry (trackerSerde earlyText epochIso)
        (readFields pairs) =
          .ok { earlyBatch with createdTime := -1000000000, trackers := [dueTask] } ∧
      earlyBatch.truncated.toRedisFieldValuePairs (trackerSerde earlyText epochIso) =
        .ok pairs) ∧
    ∃ e, ProcessTrackerBatch.fromRedisStreamEntry (trackerSerde earlyText epochIso)
      [("id", none)] = .error e := by
  have round := batch_round_trip earlyText epochIso
  have writable : Writable earlyText earlyTask :=
    { scheduleTime := fun t mem => by cases mem; exact fourDigits_iff.mpr (by decide)
      createdAt := fourDigits_iff.mpr (by decide)
      updatedAt := fourDigits_iff.mpr (by decide)
      trackingData := ⟨.null, rfl, rfl, by simp [earlyText, earlyTask, dueTask]⟩ }
  have written : [earlyTask].mapM (ProcessTracker.serialize earlyText epochIso) =
      .ok [earlyItem] := rfl
  constructor
  · apply round.1 epochIso_exact earlyBatch (by decide)
    · intro task mem
      rw [List.mem_singleton.mp mem]
      exact writable
    · intro items same
      cases written.symm.trans same
      simp [earlyText, dueTaskText_not_null]
  · exact (round.2 _).mpr (.inl ⟨"id", by simp, rfl⟩)

end Mercado.Scheduler
