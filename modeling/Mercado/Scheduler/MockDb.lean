import Mathlib.Tactic.Tauto
import Mercado.Postgres.Columns
import Mercado.Scheduler.ProcessTracker

/-! The two implementations of the tracker functions, in memory and over the table, and the
calls that both of them answer alike. The pool gives connections and Postgres answers. -/
namespace Mercado.Scheduler

/- What the columns take and give back. -/

def PrimitiveDateTime.fits (t : PrimitiveDateTime) : Bool :=
  Postgres.timestamp t && PrimitiveDateTime.valid t

def ProcessTracker.withinLimits (row : ProcessTracker) : Bool :=
  Postgres.varchar 127 row.id && row.name.all (Postgres.varchar 255) &&
    row.tag.all Postgres.noNul && row.runner.all (Postgres.varchar 255) &&
    row.scheduleTime.all PrimitiveDateTime.fits && Postgres.varchar 255 row.rule &&
    Postgres.varchar 255 row.businessStatus && row.event.all Postgres.noNul &&
    PrimitiveDateTime.fits row.createdAt && PrimitiveDateTime.fits row.updatedAt

def ProcessTracker.stored (row : ProcessTracker) : ProcessTracker :=
  { row with
    scheduleTime := row.scheduleTime.map Postgres.stored
    createdAt := Postgres.stored row.createdAt
    updatedAt := Postgres.stored row.updatedAt }

section Reading

/- What serde_json makes of the text of a JSON value: the text of the value that it reads, which
is another one where it does not find the digits of a number again, or nothing, where the value
is too deep for it. -/
variable (reread : String → Option String)

/-- A row as it is read: the column of `trackingData` has JSON. -/
def ProcessTracker.fromSql (row : ProcessTracker) : Except DatabaseError ProcessTracker :=
  match reread row.trackingData with
  | some trackingData => .ok { row with trackingData }
  | none => .error .others

/-- A tracker whose fields are within the limits of the columns. -/
structure Insertable where
  new : ProcessTrackerNew
  limits : new.row.withinLimits = true

/- The functions in memory. -/

structure MockDb where
  processes : List ProcessTracker

namespace MockDb

def new : MockDb := ⟨[]⟩

def findProcessById (db : MockDb) (id : String) : Except StorageError (Option ProcessTracker) :=
  .ok (db.processes.find? fun process => process.id = id)

def insertProcess (db : MockDb) (new : ProcessTrackerNew) :
    Except StorageError ProcessTracker × MockDb :=
  let process := new.row
  (.ok process, ⟨db.processes ++ [process]⟩)

end MockDb

/- The functions over the table. -/

/-- The statement returns the row that is then in the table. -/
def genericInsert (t : Table) (values : Insertable) :
    Except DatabaseError ProcessTracker × Table :=
  match t.insert ⟨values.new.row.stored⟩ with
  | some t' => (values.new.row.stored.fromSql reread, t')
  | none => (.error .uniqueViolation, t)

def genericFindByIdCore (t : Table) (id : String) : Except DatabaseError ProcessTracker :=
  if Postgres.noNul id then
    match t.find id with
    | some value => value.fromSql reread
    | none => .error .notFound
  else .error .others

def toOptional {T : Type} : Except DatabaseError T → Except DatabaseError (Option T)
  | .ok value => .ok (some value)
  | .error .notFound => .ok none
  | .error err => .error err

def genericFindByIdOptional (t : Table) (id : String) :
    Except DatabaseError (Option ProcessTracker) :=
  toOptional (genericFindByIdCore reread t id)

namespace Store

def findProcessById (t : Table) (id : String) : Except StorageError (Option ProcessTracker) :=
  (genericFindByIdOptional reread t id).mapError .databaseError

def insertProcess (t : Table) (new : Insertable) : Except StorageError ProcessTracker × Table :=
  let (inserted, t') := genericInsert reread t new
  (inserted.mapError .databaseError, t')

end Store

/- Calls, one after the other. -/

inductive TrackerCall where
  | insertProcess (new : Insertable)
  | findProcessById (id : String)

inductive Outcome where
  | inserted (r : Except StorageError ProcessTracker)
  | found (r : Except StorageError (Option ProcessTracker))

def MockDb.answer (db : MockDb) : TrackerCall → Outcome × MockDb
  | .insertProcess new => (.inserted (db.insertProcess new.new).1, (db.insertProcess new.new).2)
  | .findProcessById id => (.found (db.findProcessById id), db)

def Store.answer (t : Table) : TrackerCall → Outcome × Table
  | .insertProcess new => (.inserted (insertProcess reread t new).1, (insertProcess reread t new).2)
  | .findProcessById id => (.found (findProcessById reread t id), t)

def outcomes {σ : Type} (answer : σ → TrackerCall → Outcome × σ) : σ → List TrackerCall →
    List Outcome
  | _, [] => []
  | s, call :: calls => (answer s call).1 :: outcomes answer (answer s call).2 calls

/- The calls that tell the two apart. -/

/-- Postgres and serde_json give the row back as it is. -/
structure ProcessTracker.ReadBack (row : ProcessTracker) : Prop where
  scheduleTime : ∀ t ∈ row.scheduleTime, Postgres.Whole t
  createdAt : Postgres.Whole row.createdAt
  updatedAt : Postgres.Whole row.updatedAt
  trackingData : reread row.trackingData = some row.trackingData

theorem stored_of_readBack {row : ProcessTracker} (back : row.ReadBack reread) :
    row.stored = row := by
  have scheduled : row.scheduleTime.map Postgres.stored = row.scheduleTime := by
    cases given : row.scheduleTime with
    | none => rfl
    | some t => exact congrArg some ((Postgres.stored_iff t).mpr (back.scheduleTime t given))
  rw [ProcessTracker.stored, scheduled, (Postgres.stored_iff _).mpr back.createdAt,
    (Postgres.stored_iff _).mpr back.updatedAt]

theorem fromSql_of_readBack {row : ProcessTracker} (back : row.ReadBack reread) :
    row.fromSql reread = .ok row := by
  rw [ProcessTracker.fromSql, back.trackingData]

theorem readBack_iff (row : ProcessTracker) :
    row.stored.fromSql reread = .ok row ↔ row.ReadBack reread := by
  constructor
  · intro read
    unfold ProcessTracker.fromSql at read
    split at read
    · rename_i data parsed
      have same := Except.ok.inj read
      refine ⟨?_, ?_, ?_, ?_⟩
      · intro t given
        have scheduled : row.scheduleTime.map Postgres.stored = row.scheduleTime :=
          congrArg ProcessTracker.scheduleTime same
        rw [given] at scheduled
        exact (Postgres.stored_iff t).mp (Option.some.inj scheduled)
      · exact (Postgres.stored_iff _).mp (congrArg ProcessTracker.createdAt same)
      · exact (Postgres.stored_iff _).mp (congrArg ProcessTracker.updatedAt same)
      · exact parsed.trans (congrArg some (congrArg ProcessTracker.trackingData same))
    · cases read
  · intro back
    rw [stored_of_readBack reread back, fromSql_of_readBack reread back]

/- The rows in memory are those of the table until the first call that is answered otherwise. -/

variable (t : Table)

theorem insertProcess_taken {new : Insertable}
    (taken : new.new.row.id ∈ t.rows.map ProcessTracker.id) :
    Store.insertProcess reread t new = (.error (.databaseError .uniqueViolation), t) := by
  have none : t.insert ⟨new.new.row.stored⟩ = none := t.insert_taken taken
  rw [Store.insertProcess, genericInsert, none]
  rfl

theorem insertProcess_fresh {new : Insertable}
    (fresh : new.new.row.id ∉ t.rows.map ProcessTracker.id) :
    ∃ t', Store.insertProcess reread t new =
        ((new.new.row.stored.fromSql reread).mapError .databaseError, t') ∧
      t'.rows = t.rows ++ [new.new.row.stored] := by
  obtain ⟨t', inserted, rows⟩ := @Table.insert_fresh t ⟨new.new.row.stored⟩ fresh
  refine ⟨t', ?_, rows⟩
  rw [Store.insertProcess, genericInsert, inserted]

theorem insertProcess_alike (new : Insertable) :
    (MockDb.insertProcess ⟨t.rows⟩ new.new).1 = (Store.insertProcess reread t new).1 ↔
      new.new.row.id ∉ t.rows.map ProcessTracker.id ∧ new.new.row.ReadBack reread := by
  rw [← readBack_iff]
  by_cases taken : new.new.row.id ∈ t.rows.map ProcessTracker.id
  · rw [insertProcess_taken reread t taken]
    constructor
    · intro same
      cases same
    · intro kept
      exact absurd taken kept.1
  · obtain ⟨t', answered, _⟩ := insertProcess_fresh reread t taken
    rw [answered]
    constructor
    · intro same
      refine ⟨taken, ?_⟩
      cases read : new.new.row.stored.fromSql reread with
      | error e =>
        rw [read] at same
        cases same
      | ok row =>
        rw [read] at same
        exact congrArg Except.ok (Except.ok.inj same).symm
    · intro kept
      rw [kept.2]
      rfl

theorem insertProcess_rows {new : Insertable}
    (fresh : new.new.row.id ∉ t.rows.map ProcessTracker.id)
    (back : new.new.row.ReadBack reread) :
    (Store.insertProcess reread t new).2.rows = t.rows ++ [new.new.row] := by
  obtain ⟨t', answered, rows⟩ := insertProcess_fresh reread t fresh
  rw [answered, rows, stored_of_readBack reread back]

theorem findProcessById_alike (kept : ∀ row ∈ t.rows, row.ReadBack reread) (id : String) :
    MockDb.findProcessById ⟨t.rows⟩ id = Store.findProcessById reread t id ↔
      Postgres.noNul id = true := by
  rw [Store.findProcessById, genericFindByIdOptional, genericFindByIdCore]
  by_cases text : Postgres.noNul id = true
  · rw [if_pos text]
    apply iff_of_true _ text
    rw [MockDb.findProcessById, ← Table.find]
    cases found : t.find id with
    | none => rfl
    | some row =>
      simp only [fromSql_of_readBack reread (kept row (List.mem_of_find?_eq_some found))]
      rfl
  · rw [if_neg text]
    constructor
    · intro same
      cases same
    · intro other
      exact absurd other text

def inserted : List TrackerCall → List ProcessTracker
  | [] => []
  | .insertProcess new :: calls => new.new.row :: inserted calls
  | .findProcessById _ :: calls => inserted calls

def lookedUp : List TrackerCall → List String
  | [] => []
  | .insertProcess _ :: calls => lookedUp calls
  | .findProcessById id :: calls => id :: lookedUp calls

/-- Nothing is inserted twice, and the database gives the trackers and the ids back as they
are. -/
structure Alike (calls : List TrackerCall) : Prop where
  ids : ((inserted calls).map ProcessTracker.id).Nodup
  trackers : ∀ row ∈ inserted calls, row.ReadBack reread
  lookups : ∀ id ∈ lookedUp calls, Postgres.noNul id = true

theorem alike_insert {new : Insertable} {calls : List TrackerCall} :
    Alike reread (.insertProcess new :: calls) ↔
      new.new.row.id ∉ (inserted calls).map ProcessTracker.id ∧
        new.new.row.ReadBack reread ∧ Alike reread calls := by
  constructor
  · rintro ⟨ids, trackers, lookups⟩
    obtain ⟨fresh, ids⟩ := List.nodup_cons.mp ids
    obtain ⟨back, trackers⟩ := List.forall_mem_cons.mp trackers
    exact ⟨fresh, back, ids, trackers, lookups⟩
  · rintro ⟨fresh, back, ids, trackers, lookups⟩
    exact ⟨List.nodup_cons.mpr ⟨fresh, ids⟩, List.forall_mem_cons.mpr ⟨back, trackers⟩, lookups⟩

theorem alike_find {id : String} {calls : List TrackerCall} :
    Alike reread (.findProcessById id :: calls) ↔ Postgres.noNul id = true ∧ Alike reread calls := by
  constructor
  · rintro ⟨ids, trackers, lookups⟩
    obtain ⟨text, lookups⟩ := List.forall_mem_cons.mp lookups
    exact ⟨text, ids, trackers, lookups⟩
  · rintro ⟨text, ids, trackers, lookups⟩
    exact ⟨ids, trackers, List.forall_mem_cons.mpr ⟨text, lookups⟩⟩

def Free (t : Table) (calls : List TrackerCall) : Prop :=
  ∀ row ∈ inserted calls, row.id ∉ t.rows.map ProcessTracker.id

theorem free_insert {new : Insertable} {calls : List TrackerCall} :
    Free t (.insertProcess new :: calls) ↔
      new.new.row.id ∉ t.rows.map ProcessTracker.id ∧ Free t calls := List.forall_mem_cons

theorem free_inserted {t' : Table} {row : ProcessTracker} (rows : t'.rows = t.rows ++ [row])
    (calls : List TrackerCall) :
    Free t' calls ↔ Free t calls ∧ row.id ∉ (inserted calls).map ProcessTracker.id := by
  simp only [Free, rows, List.map_append, List.mem_append, not_or, List.map_cons, List.map_nil,
    List.mem_singleton]
  constructor
  · intro free
    refine ⟨fun later mem => (free later mem).1, fun again => ?_⟩
    obtain ⟨later, mem, same⟩ := List.mem_map.mp again
    exact (free later mem).2 same
  · rintro ⟨free, once⟩ later mem
    exact ⟨free later mem, fun same => once (same ▸ List.mem_map_of_mem mem)⟩

theorem outcomes_eq_iff_from {db : MockDb} {t : Table} (same : db.processes = t.rows)
    (kept : ∀ row ∈ t.rows, row.ReadBack reread) (calls : List TrackerCall) :
    outcomes MockDb.answer db calls = outcomes (Store.answer reread) t calls ↔
      Free t calls ∧ Alike reread calls := by
  induction calls generalizing db t with
  | nil => exact iff_of_true rfl ⟨by simp [Free, inserted], .nil, by simp [inserted],
      by simp [lookedUp]⟩
  | cons call calls ih =>
    obtain rfl : db = ⟨t.rows⟩ := congrArg MockDb.mk same
    rw [outcomes, outcomes, List.cons.injEq]
    cases call with
    | insertProcess new =>
      simp only [MockDb.answer, Store.answer, Outcome.inserted.injEq]
      rw [insertProcess_alike, alike_insert, free_insert]
      have later : new.new.row.id ∉ t.rows.map ProcessTracker.id ∧
          new.new.row.ReadBack reread →
          (outcomes MockDb.answer (MockDb.insertProcess ⟨t.rows⟩ new.new).2 calls =
              outcomes (Store.answer reread) (Store.insertProcess reread t new).2 calls ↔
            (Free t calls ∧ new.new.row.id ∉ (inserted calls).map ProcessTracker.id) ∧
              Alike reread calls) := by
        rintro ⟨fresh, back⟩
        have rows := insertProcess_rows reread t fresh back
        have still : (MockDb.insertProcess ⟨t.rows⟩ new.new).2.processes =
            (Store.insertProcess reread t new).2.rows := rows.symm
        have kept' : ∀ row ∈ (Store.insertProcess reread t new).2.rows, row.ReadBack reread := by
          rw [rows]
          exact List.forall_mem_append.mpr ⟨kept, by simpa using back⟩
        rw [ih still kept', free_inserted t rows]
      rw [and_congr_right later]
      tauto
    | findProcessById id =>
      simp only [MockDb.answer, Store.answer, Outcome.found.injEq]
      rw [findProcessById_alike reread t kept, ih rfl kept, alike_find]
      change _ ↔ Free t calls ∧ _
      tauto

/-- Over any calls the two give the same answers if and only if no id is inserted twice, the
trackers are read back as they are and the ids to find are texts that Postgres takes. -/
theorem outcomes_eq_iff (calls : List TrackerCall) :
    outcomes MockDb.answer .new calls = outcomes (Store.answer reread) .empty calls ↔
      Alike reread calls := by
  rw [outcomes_eq_iff_from reread rfl (fun _ mem => absurd mem List.not_mem_nil)]
  apply and_iff_right
  intro row _
  exact List.not_mem_nil

end Reading

def syncTask : Insertable where
  new := ⟨{
    id := "sync"
    name := some "PAYMENTS_SYNC"
    tag := []
    runner := some "PAYMENTS_SYNC_WORKFLOW"
    retryCount := 0
    scheduleTime := none
    rule := ""
    trackingData := "null"
    businessStatus := "Pending"
    status := .new
    event := []
    createdAt := 0
    updatedAt := 0 }⟩
  limits := by decide

/-- It is inserted once more. -/
theorem not_outcomes_eq : ¬ ∀ calls : List TrackerCall,
    outcomes MockDb.answer .new calls = outcomes (Store.answer some) .empty calls := by
  intro same
  have twice := same [.insertProcess syncTask, .insertProcess syncTask]
  have alike := (outcomes_eq_iff_from some rfl (fun _ mem => absurd mem List.not_mem_nil) _).mp twice
  exact absurd alike.2.ids (by decide)

end Mercado.Scheduler
