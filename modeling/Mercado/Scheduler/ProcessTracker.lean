import Mathlib.Data.List.Nodup
import Mercado.Errors

/-! The rows of the process tracker table, the updates that the operations make of them,
and the statements that carry these updates out. -/
namespace Mercado.Scheduler

inductive ProcessTrackerStatus where
  | processing | new | pending | processStarted | finish
  deriving DecidableEq, Repr

/-- Nanoseconds since the epoch. -/
abbrev PrimitiveDateTime := Int

def nanosPerSecond : Int := 1000000000

/-- The dates of `time`, from the year -9999 to the year 9999. -/
def PrimitiveDateTime.valid (t : PrimitiveDateTime) : Bool :=
  -377705116800 * nanosPerSecond ≤ t && t < 253402300800 * nanosPerSecond

def PrimitiveDateTime.checkedAdd (t : PrimitiveDateTime) (seconds : Int) :
    Option PrimitiveDateTime :=
  if PrimitiveDateTime.valid (t + seconds * nanosPerSecond) then
    some (t + seconds * nanosPerSecond)
  else none

/-- `trackingData` is a JSON value, kept as its text. -/
structure ProcessTracker where
  id : String
  name : Option String
  tag : List String
  runner : Option String
  retryCount : Int32
  scheduleTime : Option PrimitiveDateTime
  rule : String
  trackingData : String
  businessStatus : String
  status : ProcessTrackerStatus
  event : List String
  createdAt : PrimitiveDateTime
  updatedAt : PrimitiveDateTime
  deriving DecidableEq

def ProcessTracker.isValidBusinessStatus (task : ProcessTracker) (validStatuses : List String) :
    Bool :=
  validStatuses.any fun x => x == task.businessStatus

def validBusinessStatuses : List String := ["Pending"]

inductive ProcessTrackerRunner where
  | paymentsSyncWorkflow | refundWorkflowRouter | deleteTokenizeDataWorkflow
  | apiKeyExpiryWorkflow | outgoingWebhookRetryWorkflow

def ProcessTrackerRunner.display : ProcessTrackerRunner → String
  | .paymentsSyncWorkflow => "PAYMENTS_SYNC_WORKFLOW"
  | .refundWorkflowRouter => "REFUND_WORKFLOW_ROUTER"
  | .deleteTokenizeDataWorkflow => "DELETE_TOKENIZE_DATA_WORKFLOW"
  | .apiKeyExpiryWorkflow => "API_KEY_EXPIRY_WORKFLOW"
  | .outgoingWebhookRetryWorkflow => "OUTGOING_WEBHOOK_RETRY_WORKFLOW"

/-- A row that is still to be inserted has the columns of one that has been. -/
structure ProcessTrackerNew where
  row : ProcessTracker
  deriving DecidableEq

def ProcessTrackerNew.new {T : Type} (encodeToValue : T → Except Unit String)
    (processTrackerId task : String) (runner : ProcessTrackerRunner) (tag : List String)
    (trackingData : T) (scheduleTime now : PrimitiveDateTime) :
    Except DatabaseError ProcessTrackerNew :=
  match encodeToValue trackingData with
  | .error _ => .error .others
  | .ok value => .ok ⟨{
      id := processTrackerId
      name := some task
      tag := tag
      runner := some runner.display
      retryCount := 0
      scheduleTime := some scheduleTime
      rule := ""
      trackingData := value
      businessStatus := "Pending"
      status := .new
      event := []
      createdAt := now
      updatedAt := now }⟩

inductive ProcessTrackerUpdate where
  | update (name : Option String) (retryCount : Option Int32)
      (scheduleTime : Option PrimitiveDateTime) (trackingData businessStatus : Option String)
      (status : Option ProcessTrackerStatus) (updatedAt : Option PrimitiveDateTime)
  | statusUpdate (status : ProcessTrackerStatus) (businessStatus : Option String)
  | statusRetryUpdate (status : ProcessTrackerStatus) (retryCount : Int32)
      (scheduleTime : PrimitiveDateTime)

structure ProcessTrackerUpdateInternal where
  name : Option String := none
  retryCount : Option Int32 := none
  scheduleTime : Option PrimitiveDateTime := none
  trackingData : Option String := none
  businessStatus : Option String := none
  status : Option ProcessTrackerStatus := none
  updatedAt : Option PrimitiveDateTime
  deriving DecidableEq

def ProcessTrackerUpdate.toInternal (now : PrimitiveDateTime) :
    ProcessTrackerUpdate → ProcessTrackerUpdateInternal
  | .update name retryCount scheduleTime trackingData businessStatus status updatedAt =>
    ⟨name, retryCount, scheduleTime, trackingData, businessStatus, status, updatedAt⟩
  | .statusUpdate status businessStatus =>
    { status := some status, businessStatus := businessStatus, updatedAt := some now }
  | .statusRetryUpdate status retryCount scheduleTime =>
    { status := some status, retryCount := some retryCount, scheduleTime := some scheduleTime,
      updatedAt := some now }

namespace ProcessTrackerUpdateInternal

/-- diesel refuses an update that sets nothing. -/
def isEmpty (u : ProcessTrackerUpdateInternal) : Bool := u = { updatedAt := none }

def apply (u : ProcessTrackerUpdateInternal) (row : ProcessTracker) : ProcessTracker :=
  { row with
    name := u.name.orElse fun _ => row.name
    retryCount := u.retryCount.getD row.retryCount
    scheduleTime := u.scheduleTime.orElse fun _ => row.scheduleTime
    trackingData := u.trackingData.getD row.trackingData
    businessStatus := u.businessStatus.getD row.businessStatus
    status := u.status.getD row.status
    updatedAt := u.updatedAt.getD row.updatedAt }

variable (u : ProcessTrackerUpdateInternal) (row : ProcessTracker)

@[simp] theorem apply_id : (u.apply row).id = row.id := rfl
@[simp] theorem apply_status : (u.apply row).status = u.status.getD row.status := rfl
@[simp] theorem apply_businessStatus :
    (u.apply row).businessStatus = u.businessStatus.getD row.businessStatus := rfl

end ProcessTrackerUpdateInternal

structure Table where
  rows : List ProcessTracker
  distinct : (rows.map ProcessTracker.id).Nodup

namespace Table

variable (t : Table)

def empty : Table := ⟨[], .nil⟩

def find (id : String) : Option ProcessTracker := t.rows.find? fun row => row.id = id

def updateWhere (p : ProcessTracker → Bool) (f : ProcessTracker → ProcessTracker)
    (keepsId : ∀ row, (f row).id = row.id) : Table where
  rows := t.rows.map fun row => if p row then f row else row
  distinct := by
    have ids : (t.rows.map fun row => if p row then f row else row).map ProcessTracker.id =
        t.rows.map ProcessTracker.id := by
      rw [List.map_map]
      refine List.map_congr_left fun row _ => ?_
      simp only [Function.comp_apply]
      split
      · exact keepsId row
      · rfl
    rw [ids]
    exact t.distinct

def updateByIds (ids : List String) (u : ProcessTrackerUpdateInternal) : Table :=
  t.updateWhere (fun row => ids.contains row.id) u.apply u.apply_id

theorem find_updateWhere {p : ProcessTracker → Bool} {f : ProcessTracker → ProcessTracker}
    (keepsId : ∀ row, (f row).id = row.id) (id : String) :
    (t.updateWhere p f keepsId).find id = (t.find id).map fun row => if p row then f row else row := by
  have same : (fun row : ProcessTracker => decide (row.id = id)) ∘
      (fun row => if p row then f row else row) = fun row => decide (row.id = id) := by
    funext row
    simp only [Function.comp_apply]
    split
    · rw [keepsId]
    · rfl
  rw [find, updateWhere, List.find?_map, same, find]

def status (id : String) : Option ProcessTrackerStatus := (t.find id).map ProcessTracker.status

theorem find_id {id : String} {row : ProcessTracker} (found : t.find id = some row) :
    row.id = id := by
  simpa using List.find?_some found

theorem find_of_mem {row : ProcessTracker} (mem : row ∈ t.rows) : t.find row.id = some row := by
  cases found : t.find row.id with
  | none => simpa using List.find?_eq_none.mp found row mem
  | some other =>
    have same := List.inj_on_of_nodup_map t.distinct (List.mem_of_find?_eq_some found) mem
      (t.find_id found)
    rw [same]

theorem status_of_mem {row : ProcessTracker} (mem : row ∈ t.rows) :
    t.status row.id = some row.status := by
  rw [status, t.find_of_mem mem]
  rfl

/-- `reinitialize_limbo_processes`: only rows in `ProcessStarted`. -/
def reinitialize (ids : List String) (scheduleTime : PrimitiveDateTime) : Table :=
  t.updateWhere (fun row => row.status = .processStarted && ids.contains row.id)
    (fun row => { row with status := .processing, scheduleTime := some scheduleTime })
    fun _ => rfl

theorem status_updateByIds (ids : List String) (u : ProcessTrackerUpdateInternal) (id : String) :
    (t.updateByIds ids u).status id =
      (t.status id).map fun s => if id ∈ ids then u.status.getD s else s := by
  rw [status, updateByIds, find_updateWhere, status]
  cases found : t.find id with
  | none => rfl
  | some row =>
    simp only [Option.map_some, t.find_id found, List.contains_iff_mem, Option.some.injEq]
    split <;> rfl

theorem status_reinitialize {id : String} (finished : t.status id = some .finish)
    (ids : List String) (time : PrimitiveDateTime) :
    (t.reinitialize ids time).status id = some .finish := by
  rw [status, reinitialize, find_updateWhere]
  rw [status] at finished
  obtain ⟨row, found, finish⟩ := Option.map_eq_some_iff.mp finished
  simp [found, finish]

theorem insert_distinct {new : ProcessTracker} (fresh : new.id ∉ t.rows.map ProcessTracker.id) :
    ((t.rows ++ [new]).map ProcessTracker.id).Nodup := by
  rw [List.map_append]
  refine List.nodup_append.mpr ⟨t.distinct, List.nodup_singleton _, ?_⟩
  intro a ha b hb same
  rw [List.map_singleton, List.mem_singleton] at hb
  exact fresh (hb ▸ same ▸ ha)

def insert (new : ProcessTrackerNew) : Option Table :=
  if fresh : new.row.id ∉ t.rows.map ProcessTracker.id then
    some ⟨t.rows ++ [new.row], t.insert_distinct fresh⟩
  else none

theorem insert_taken {new : ProcessTrackerNew}
    (taken : new.row.id ∈ t.rows.map ProcessTracker.id) : t.insert new = none :=
  dif_neg (not_not_intro taken)

theorem insert_fresh {new : ProcessTrackerNew}
    (fresh : new.row.id ∉ t.rows.map ProcessTracker.id) :
    ∃ t', t.insert new = some t' ∧ t'.rows = t.rows ++ [new.row] :=
  ⟨_, dif_pos fresh, rfl⟩

variable {t} in
theorem insert_rows {new : ProcessTrackerNew} {t' : Table} (inserted : t.insert new = some t') :
    t'.rows = t.rows ++ [new.row] := by
  rw [insert] at inserted
  split at inserted
  · cases inserted
    rfl
  · cases inserted

theorem insert_isSome (new : ProcessTrackerNew) :
    (t.insert new).isSome ↔ new.row.id ∉ t.rows.map ProcessTracker.id := by
  by_cases taken : new.row.id ∈ t.rows.map ProcessTracker.id
  · rw [t.insert_taken taken]
    exact iff_of_false Bool.false_ne_true (not_not_intro taken)
  · obtain ⟨t', inserted, _⟩ := t.insert_fresh taken
    rw [inserted]
    exact iff_of_true rfl taken

theorem status_insert {new : ProcessTrackerNew} {t' : Table} (inserted : t.insert new = some t')
    {id : String} {s : ProcessTrackerStatus} (before : t.status id = some s) :
    t'.status id = some s := by
  rw [insert] at inserted
  split at inserted
  · cases inserted
    obtain ⟨row, found, rfl⟩ := Option.map_eq_some_iff.mp before
    rw [find] at found
    simp [status, find, found]
  · cases inserted

def findByTimeStatus (lower upper : PrimitiveDateTime) (status : ProcessTrackerStatus)
    (limit : Option Nat) : List ProcessTracker :=
  let found := t.rows.filter fun row =>
    row.status = status && row.scheduleTime.any fun time => lower ≤ time && time ≤ upper
  match limit with
  | none => found
  | some n => found.take n

theorem found_row {lower upper : PrimitiveDateTime} {status : ProcessTrackerStatus}
    {limit : Option Nat} {row : ProcessTracker}
    (found : row ∈ t.findByTimeStatus lower upper status limit) :
    row ∈ t.rows ∧ row.status = status := by
  cases limit with
  | none =>
    simp only [findByTimeStatus, List.mem_filter, Bool.and_eq_true, decide_eq_true_eq] at found
    exact ⟨found.1, found.2.1⟩
  | some n =>
    have found := List.mem_of_mem_take found
    simp only [List.mem_filter, Bool.and_eq_true, decide_eq_true_eq] at found
    exact ⟨found.1, found.2.1⟩

theorem status_of_found {lower upper : PrimitiveDateTime} {status : ProcessTrackerStatus}
    {limit : Option Nat} {id : String}
    (mem : id ∈ (t.findByTimeStatus lower upper status limit).map ProcessTracker.id) :
    t.status id = some status := by
  obtain ⟨row, found, rfl⟩ := List.mem_map.mp mem
  obtain ⟨selected, same⟩ := t.found_row found
  rw [t.status_of_mem selected, same]

end Table

end Mercado.Scheduler
