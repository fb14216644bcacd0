import Mathlib.Data.List.Nodup
import Mathlib.Data.List.ReduceOption
import Mercado.Errors
import Mercado.Postgres.Columns

/-! The `api_key` table and the statements on it. The pool gives connections and Postgres
answers; everything else a statement can run into is modelled. -/
namespace Mercado.ApiKeys

inductive ApiKeyType where
  | publishable | secret
  deriving DecidableEq, Repr

/- How the type is written to the database and read from it. -/

def ApiKeyType.toString : ApiKeyType → String
  | .publishable => "publishable"
  | .secret => "secret"

def ApiKeyType.fromStr : String → Option ApiKeyType
  | "publishable" => some .publishable
  | "secret" => some .secret
  | _ => none

structure HashedApiKey where
  inner : String
  deriving DecidableEq, Repr

def HashedApiKey.from (hashedApiKey : String) : HashedApiKey := ⟨hashedApiKey⟩

/-- The columns of a row. A date counts nanoseconds. -/
structure Columns (τ : Type) where
  id : String
  token : HashedApiKey
  salt : String
  redacted : String
  title : String
  type_ : τ
  lastUsedAt : Option Int
  createdBy : String
  createdAt : Int
  revokedBy : Option String
  revokedAt : Option Int
  deriving DecidableEq, Repr

/- A row as the code has it, and as the database has it: with a label of its enum. -/

abbrev ApiKey := Columns ApiKeyType

abbrev Row := Columns String

structure ApiKeyNew where
  token : HashedApiKey
  salt : String
  redacted : String
  title : String
  type_ : ApiKeyType
  lastUsedAt : Option Int
  createdBy : String
  createdAt : Int
  revokedBy : Option String
  revokedAt : Option Int
  deriving DecidableEq, Repr

inductive ApiKeyUpdate where
  | update (title : Option String) (type_ : Option ApiKeyType) (lastUsedAt : Option (Option Int))
      (revokedBy : Option (Option String)) (revokedAt : Option (Option Int))
  | upsert (token : Option HashedApiKey) (salt redacted title : Option String)
      (type_ : Option ApiKeyType) (createdBy : Option String) (createdAt : Option Int)
      (lastUsedAt : Option (Option Int)) (revokedBy : Option (Option String))
      (revokedAt : Option (Option Int))
  | revoke (revokedBy : Option String) (revokedAt : Option Int)
  | lastUsedUpdate (lastUsedAt : Option Int)
  deriving DecidableEq, Repr

structure ApiKeyUpdateInternal where
  token : Option HashedApiKey
  salt : Option String
  redacted : Option String
  title : Option String
  type_ : Option ApiKeyType
  createdBy : Option String
  createdAt : Option Int
  lastUsedAt : Option (Option Int)
  revokedBy : Option (Option String)
  revokedAt : Option (Option Int)
  deriving DecidableEq, Repr

def ApiKeyUpdateInternal.from : ApiKeyUpdate → ApiKeyUpdateInternal
  | .update title type_ lastUsedAt revokedBy revokedAt =>
    { token := none, salt := none, redacted := none, title, type_, createdBy := none,
      createdAt := none, lastUsedAt, revokedBy, revokedAt }
  | .upsert token salt redacted title type_ createdBy createdAt lastUsedAt revokedBy revokedAt =>
    { token, salt, redacted, title, type_, createdBy, createdAt, lastUsedAt, revokedBy,
      revokedAt }
  | .revoke revokedBy revokedAt =>
    { token := none, salt := none, redacted := none, title := none, type_ := none,
      createdBy := none, createdAt := none, lastUsedAt := none, revokedBy := some revokedBy,
      revokedAt := some revokedAt }
  | .lastUsedUpdate lastUsedAt =>
    { token := none, salt := none, redacted := none, title := none, type_ := none,
      createdBy := none, createdAt := none, lastUsedAt := some lastUsedAt, revokedBy := none,
      revokedAt := none }

def okOr {α : Type} (x : Option α) (message : String) : Except String α :=
  match x with
  | some a => .ok a
  | none => .error message

def ApiKeyNew.tryFrom (u : ApiKeyUpdateInternal) : Except String ApiKeyNew := do
  let token ← okOr u.token "token is required"
  let salt ← okOr u.salt "salt is required"
  let redacted ← okOr u.redacted "redacted is required"
  let title ← okOr u.title "title is required"
  let type_ ← okOr u.type_ "type is required"
  let lastUsedAt ← okOr u.lastUsedAt "last_used_at is required"
  let createdBy ← okOr u.createdBy "created_by is required"
  let createdAt ← okOr u.createdAt "created_at is required"
  let revokedBy ← okOr u.revokedBy "revoked_by is required"
  let revokedAt ← okOr u.revokedAt "revoked_at is required"
  return ⟨token, salt, redacted, title, type_, lastUsedAt, createdBy, createdAt, revokedBy,
    revokedAt⟩

namespace ApiKeyUpdateInternal

def isEmpty (u : ApiKeyUpdateInternal) : Bool :=
  u.token.isNone && u.salt.isNone && u.redacted.isNone && u.title.isNone && u.type_.isNone &&
    u.createdBy.isNone && u.createdAt.isNone && u.lastUsedAt.isNone && u.revokedBy.isNone &&
    u.revokedAt.isNone

def set (u : ApiKeyUpdateInternal) (row : Row) : Row where
  id := row.id
  token := u.token.getD row.token
  salt := u.salt.getD row.salt
  redacted := u.redacted.getD row.redacted
  title := u.title.getD row.title
  type_ := (u.type_.map ApiKeyType.toString).getD row.type_
  lastUsedAt := (u.lastUsedAt.map (Option.map Postgres.stored)).getD row.lastUsedAt
  createdBy := u.createdBy.getD row.createdBy
  createdAt := (u.createdAt.map Postgres.stored).getD row.createdAt
  revokedBy := u.revokedBy.getD row.revokedBy
  revokedAt := (u.revokedAt.map (Option.map Postgres.stored)).getD row.revokedAt

def label (u : ApiKeyUpdateInternal) : Option String := u.type_.map ApiKeyType.toString

def texts (u : ApiKeyUpdateInternal) : List String :=
  [u.token.map HashedApiKey.inner, u.salt, u.redacted, u.title, u.createdBy,
    u.revokedBy.join].reduceOption

def dates (u : ApiKeyUpdateInternal) : List Int :=
  [u.createdAt, u.lastUsedAt.join, u.revokedAt.join].reduceOption

end ApiKeyUpdateInternal

structure Values where
  id : Option String
  token : Option HashedApiKey
  salt : Option String
  redacted : Option String
  title : Option String
  type_ : Option String
  lastUsedAt : Option Int
  createdBy : Option String
  createdAt : Option Int
  revokedBy : Option String
  revokedAt : Option Int

def ApiKeyNew.values (new : ApiKeyNew) : Values where
  id := none
  token := some new.token
  salt := some new.salt
  redacted := some new.redacted
  title := some new.title
  type_ := some new.type_.toString
  lastUsedAt := new.lastUsedAt
  createdBy := some new.createdBy
  createdAt := some new.createdAt
  revokedBy := new.revokedBy
  revokedAt := new.revokedAt

namespace Values

/-- The row of an INSERT at this time, unless a column that is NOT NULL has no value. Only
`created_at` has a default. -/
def row (values : Values) (now : Int) : Option Row := do
  let id ← values.id
  let token ← values.token
  let salt ← values.salt
  let redacted ← values.redacted
  let title ← values.title
  let type_ ← values.type_
  let createdBy ← values.createdBy
  return ⟨id, token, salt, redacted, title, type_, values.lastUsedAt.map Postgres.stored,
    createdBy, Postgres.stored (values.createdAt.getD now), values.revokedBy,
    values.revokedAt.map Postgres.stored⟩

def texts (values : Values) : List String :=
  [values.id, values.token.map HashedApiKey.inner, values.salt, values.redacted, values.title,
    values.createdBy, values.revokedBy].reduceOption

def dates (values : Values) : List Int :=
  [values.createdAt, values.lastUsedAt, values.revokedAt].reduceOption

end Values

inductive DieselError where
  | uniqueViolation | notNullViolation | invalidValue | notFound
  | queryBuilderError | deserializationError
  deriving DecidableEq, Repr

/-- The rows, with the constraints of the table: the primary key, the unique index on the
tokens, and the labels of the enum. -/
@[ext] structure Table (labels : List String) where
  rows : List Row
  ids : (rows.map Columns.id).Nodup
  tokens : (rows.map Columns.token).Nodup
  types : ∀ row ∈ rows, row.type_ ∈ labels

def codeLabels : List String := [ApiKeyType.publishable.toString, ApiKeyType.secret.toString]

/-- The labels of the enum as the migration creates it. -/
def migrationLabels : List String := ["Publishable", "Secret"]

def fromSql (row : Row) : Except DieselError ApiKey :=
  match ApiKeyType.fromStr row.type_ with
  | some type_ => .ok { row with type_ := type_ }
  | none => .error .deserializationError

def Readable (row : Row) : Prop := (ApiKeyType.fromStr row.type_).isSome

theorem fromSql_ok {row : Row} {key : ApiKey} : fromSql row = .ok key ↔
    ∃ type_, ApiKeyType.fromStr row.type_ = some type_ ∧ key = { row with type_ := type_ } := by
  unfold fromSql
  cases ApiKeyType.fromStr row.type_ with
  | none => simp
  | some type_ => simp [eq_comm]

theorem fromSql_error {row : Row} {e : DieselError} (unread : fromSql row = .error e) :
    e = .deserializationError := by
  unfold fromSql at unread
  split at unread <;> cases unread
  rfl

theorem readable_iff {row : Row} : Readable row ↔ ∃ key, fromSql row = .ok key := by
  unfold Readable
  simp only [fromSql_ok, Option.isSome_iff_exists]
  exact ⟨fun ⟨type_, read⟩ => ⟨_, type_, read, rfl⟩, fun ⟨_, type_, read, _⟩ => ⟨type_, read⟩⟩

/-- Postgres looks at the values of a statement before it runs it: the label has to be one of
the enum, a text has no NUL, and a date is not too early. -/
structure Accepted (labels : List String) (label : Option String) (texts : List String)
    (dates : List Int) : Prop where
  label : ∀ l ∈ label, l ∈ labels
  texts : ∀ s ∈ texts, Postgres.noNul s = true
  dates : ∀ t ∈ dates, Postgres.timestamp t = true

instance (labels : List String) (label : Option String) (texts : List String)
    (dates : List Int) : Decidable (Accepted labels label texts dates) :=
  decidable_of_iff ((∀ l ∈ label, l ∈ labels) ∧ (∀ s ∈ texts, Postgres.noNul s = true) ∧
      ∀ t ∈ dates, Postgres.timestamp t = true)
    ⟨fun ⟨label, texts, dates⟩ => ⟨label, texts, dates⟩,
      fun ⟨label, texts, dates⟩ => ⟨label, texts, dates⟩⟩

namespace ApiKeyUpdateInternal

variable {labels : List String}

/-- The update of the row with this id. -/
abbrev Accepted (labels : List String) (id : String) (u : ApiKeyUpdateInternal) : Prop :=
  ApiKeys.Accepted labels u.label (id :: u.texts) u.dates

def setWhere (u : ApiKeyUpdateInternal) (id : String) (row : Row) : Row :=
  if row.id = id then u.set row else row

def TokenFree (u : ApiKeyUpdateInternal) (id : String) (rows : List Row) : Prop :=
  ∀ row ∈ rows, u.token = some row.token → row.id = id

instance (u : ApiKeyUpdateInternal) (id : String) (rows : List Row) :
    Decidable (u.TokenFree id rows) :=
  inferInstanceAs (Decidable (∀ row ∈ rows, u.token = some row.token → row.id = id))

@[simp] theorem set_id (u : ApiKeyUpdateInternal) (row : Row) : (u.set row).id = row.id := rfl

@[simp] theorem setWhere_id (u : ApiKeyUpdateInternal) (id : String) (row : Row) :
    (u.setWhere id row).id = row.id := by
  unfold setWhere
  split <;> rfl

theorem setWhere_self {u : ApiKeyUpdateInternal} {id : String} {row : Row} (same : row.id = id) :
    u.setWhere id row = u.set row := if_pos same

theorem setWhere_other {u : ApiKeyUpdateInternal} {id : String} {row : Row} (other : row.id ≠ id) :
    u.setWhere id row = row := if_neg other

theorem setWhere_tokens {u : ApiKeyUpdateInternal} {id : String} {rows : List Row}
    (ids : (rows.map Columns.id).Nodup) (tokens : (rows.map Columns.token).Nodup)
    (free : u.TokenFree id rows) : ((rows.map (u.setWhere id)).map Columns.token).Nodup := by
  rw [List.map_map]
  refine (List.Nodup.of_map _ ids).map_on fun a memA b memB same => ?_
  have byId : a.id = b.id → a = b := List.inj_on_of_nodup_map ids memA memB
  have byToken : a.token = b.token → a = b := List.inj_on_of_nodup_map tokens memA memB
  simp only [Function.comp_apply, setWhere] at same
  cases given : u.token with
  | none =>
    refine byToken ?_
    split at same <;> split at same <;> simpa [set, given] using same
  | some token =>
    split at same <;> split at same
    · rename_i first second
      exact byId (first.trans second.symm)
    · rename_i first second
      simp only [set, given, Option.getD_some] at same
      exact absurd (free b memB (given.trans (congrArg some same))) second
    · rename_i first second
      simp only [set, given, Option.getD_some] at same
      exact absurd (free a memA (given.trans (congrArg some same.symm))) first
    · exact byToken same

theorem setWhere_types {u : ApiKeyUpdateInternal} {id : String} {rows : List Row}
    (types : ∀ row ∈ rows, row.type_ ∈ labels) (accepted : ∀ l ∈ u.label, l ∈ labels) :
    ∀ row ∈ rows.map (u.setWhere id), row.type_ ∈ labels := by
  intro row mem
  obtain ⟨old, memOld, rfl⟩ := List.mem_map.mp mem
  unfold setWhere
  split
  · cases given : u.type_ with
    | none => simpa [set, given] using types old memOld
    | some type_ => simpa [set, given] using accepted type_.toString (by simp [label, given])
  · exact types old memOld

end ApiKeyUpdateInternal

theorem Values.row_type {values : Values} {now : Int} {row : Row}
    (built : values.row now = some row) : values.type_ = some row.type_ := by
  simp only [Values.row, Option.bind_eq_bind, Option.bind_eq_some_iff] at built
  obtain ⟨_, _, _, _, _, _, _, _, _, _, type_, given, _, _, ⟨⟩⟩ := built
  exact given

theorem nodup_concat {α β : Type} {f : α → β} {l : List α} {a : α} (distinct : (l.map f).Nodup)
    (fresh : ∀ b ∈ l, f b ≠ f a) : ((l ++ [a]).map f).Nodup := by
  rw [List.map_append, List.nodup_append]
  refine ⟨distinct, List.nodup_singleton _, fun x memX y memY => ?_⟩
  obtain ⟨b, mem, rfl⟩ := List.mem_map.mp memX
  rw [List.map_singleton, List.mem_singleton] at memY
  exact memY ▸ fresh b mem

theorem find_of_distinct {α β : Type} [DecidableEq β] {f : α → β} {l : List α} {a : α}
    (distinct : (l.map f).Nodup) (mem : a ∈ l) : l.find? (fun b => f b = f a) = some a := by
  cases found : l.find? fun b => f b = f a with
  | none => exact absurd (List.find?_eq_none.mp found a mem) (by simp)
  | some b =>
    have same : f b = f a := by simpa using List.find?_some found
    rw [List.inj_on_of_nodup_map distinct (List.mem_of_find?_eq_some found) mem same]

/- The statements. One that returns a row reads it after its effect. -/

namespace Table

variable {labels : List String}

def first (t : Table labels) (p : Row → Bool) : Except DieselError ApiKey :=
  match t.rows.find? p with
  | some row => fromSql row
  | none => .error .notFound

def update (t : Table labels) (id : String) (u : ApiKeyUpdateInternal) :
    Except DieselError ApiKey × Table labels :=
  if u.isEmpty then (.error .queryBuilderError, t)
  else if accepted : u.Accepted labels id then
    match t.rows.find? fun row => row.id = id with
    | none => (.error .notFound, t)
    | some row =>
      if free : u.TokenFree id t.rows then
        (fromSql (u.set row), {
          rows := t.rows.map (u.setWhere id)
          ids := by simpa [Function.comp_def] using t.ids
          tokens := u.setWhere_tokens t.ids t.tokens free
          types := u.setWhere_types t.types accepted.label })
      else (.error .uniqueViolation, t)
  else (.error .invalidValue, t)

def insert (t : Table labels) (now : Int) (values : Values) :
    Except DieselError ApiKey × Table labels :=
  if accepted : Accepted labels values.type_ values.texts values.dates then
    match built : values.row now with
    | none => (.error .notNullViolation, t)
    | some row =>
      if fresh : (∀ r ∈ t.rows, r.id ≠ row.id) ∧ ∀ r ∈ t.rows, r.token ≠ row.token then
        (fromSql row, {
          rows := t.rows ++ [row]
          ids := nodup_concat t.ids fresh.1
          tokens := nodup_concat t.tokens fresh.2
          types := by
            intro r mem
            rcases List.mem_append.mp mem with mem | mem
            · exact t.types r mem
            · rw [List.mem_singleton.mp mem]
              exact accepted.label row.type_ (Values.row_type built) })
      else (.error .uniqueViolation, t)
  else (.error .invalidValue, t)

def delete (t : Table labels) (id : String) : Except DieselError Nat × Table labels :=
  if Postgres.noNul id then
    (.ok (t.rows.filter fun row => row.id = id).length, {
      rows := t.rows.filter fun row => row.id ≠ id
      ids := (List.filter_sublist.map _).nodup t.ids
      tokens := (List.filter_sublist.map _).nodup t.tokens
      types := fun row mem => t.types row (List.mem_filter.mp mem).1 })
  else (.error .invalidValue, t)

end Table

section Outcomes

variable {labels : List String}

inductive Updated (t : Table labels) (id : String) (u : ApiKeyUpdateInternal) :
    Except DieselError ApiKey × Table labels → Prop where
  | empty (nothing : u.isEmpty = true) : Updated t id u (.error .queryBuilderError, t)
  | refused (refused : ¬ u.Accepted labels id) : Updated t id u (.error .invalidValue, t)
  | absent (absent : ∀ row ∈ t.rows, row.id ≠ id) : Updated t id u (.error .notFound, t)
  | taken (taken : ¬ u.TokenFree id t.rows) : Updated t id u (.error .uniqueViolation, t)
  | set {row : Row} {t' : Table labels} (mem : row ∈ t.rows) (own : row.id = id)
    (some : u.isEmpty = false) (accepted : u.Accepted labels id)
    (free : u.TokenFree id t.rows) (rows : t'.rows = t.rows.map (u.setWhere id)) :
    Updated t id u (fromSql (u.set row), t')

theorem update_updated (t : Table labels) (id : String) (u : ApiKeyUpdateInternal) :
    Updated t id u (t.update id u) := by
  unfold Table.update
  split
  · rename_i nothing
    exact .empty nothing
  · rename_i some
    split
    · rename_i accepted
      split
      · rename_i absent
        exact .absent fun row mem => by simpa using List.find?_eq_none.mp absent row mem
      · rename_i row found
        have own : row.id = id := by simpa using List.find?_some found
        split
        · rename_i free
          exact .set (List.mem_of_find?_eq_some found) own (by simpa using some) accepted free rfl
        · rename_i taken
          exact .taken taken
    · rename_i refused
      exact .refused refused

end Outcomes

end Mercado.ApiKeys
