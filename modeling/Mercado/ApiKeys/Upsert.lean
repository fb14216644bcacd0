import Mercado.ApiKeys.Service
import Mercado.Serde.Json

/-! What an upsert leaves in the table. -/
namespace Mercado.ApiKeys

variable {labels : List String} {t : Table labels} {row old : Row} {keyId : String}

/- What the update gives. -/

namespace ApiKeyUpdateInternal

def Given (u : ApiKeyUpdateInternal) (row : Row) : Prop :=
  (∀ x, u.token = some x → row.token = x) ∧ (∀ x, u.salt = some x → row.salt = x) ∧
    (∀ x, u.redacted = some x → row.redacted = x) ∧ (∀ x, u.title = some x → row.title = x) ∧
    (∀ x, u.type_ = some x → row.type_ = x.toString) ∧
    (∀ x, u.createdBy = some x → row.createdBy = x) ∧
    (∀ x, u.createdAt = some x → row.createdAt = x) ∧
    (∀ x, u.lastUsedAt = some x → row.lastUsedAt = x) ∧
    (∀ x, u.revokedBy = some x → row.revokedBy = x) ∧
    ∀ x, u.revokedAt = some x → row.revokedAt = x

def Kept (u : ApiKeyUpdateInternal) (old row : Row) : Prop :=
  (u.token = none → row.token = old.token) ∧ (u.salt = none → row.salt = old.salt) ∧
    (u.redacted = none → row.redacted = old.redacted) ∧ (u.title = none → row.title = old.title) ∧
    (u.type_ = none → row.type_ = old.type_) ∧
    (u.createdBy = none → row.createdBy = old.createdBy) ∧
    (u.createdAt = none → row.createdAt = old.createdAt) ∧
    (u.lastUsedAt = none → row.lastUsedAt = old.lastUsedAt) ∧
    (u.revokedBy = none → row.revokedBy = old.revokedBy) ∧
    (u.revokedAt = none → row.revokedAt = old.revokedAt)

def GivesEvery (u : ApiKeyUpdateInternal) : Prop :=
  u.token ≠ none ∧ u.salt ≠ none ∧ u.redacted ≠ none ∧ u.title ≠ none ∧ u.type_ ≠ none ∧
    u.createdBy ≠ none ∧ u.createdAt ≠ none ∧ u.lastUsedAt ≠ none ∧ u.revokedBy ≠ none ∧
    u.revokedAt ≠ none

theorem set_given_iff (u : ApiKeyUpdateInternal) (row : Row) :
    u.Given (u.set row) ↔ ∀ date ∈ u.dates, Postgres.Whole date := by
  have texts : ∀ {α : Type} {given : Option α} {old : α}, ∀ x, given = some x →
      given.getD old = x := by
    rintro α _ old x rfl
    rfl
  have labels : ∀ x, u.type_ = some x →
      (u.type_.map ApiKeyType.toString).getD row.type_ = x.toString := by
    intro x given
    rw [given]
    rfl
  have date : ∀ {given : Option Int} {old : Int},
      (∀ x, given = some x → (given.map Postgres.stored).getD old = x) ↔
        ∀ x ∈ given, Postgres.Whole x := by
    intro given old
    simp only [← Postgres.stored_iff, Option.mem_def]
    constructor <;> rintro same x rfl <;> exact same x rfl
  have optional : ∀ {given : Option (Option Int)} {old : Option Int},
      (∀ x, given = some x → (given.map (Option.map Postgres.stored)).getD old = x) ↔
        ∀ x ∈ given.join, Postgres.Whole x := by
    intro given old
    simp only [← Postgres.stored_iff, Option.mem_def]
    rcases given with _ | _ | x <;> simp
  have sent : ∀ x, x ∈ u.dates ↔
      x ∈ u.createdAt ∨ x ∈ u.lastUsedAt.join ∨ x ∈ u.revokedAt.join := by
    intro x
    simp [dates, List.reduceOption_mem_iff, eq_comm]
  simp only [Given, set, date, optional, sent]
  constructor
  · rintro ⟨_, _, _, _, _, _, created, used, _, revoked⟩ x (given | given | given)
    · exact created x given
    · exact used x given
    · exact revoked x given
  · intro whole
    exact ⟨texts, texts, texts, texts, labels, texts, fun x given => whole x (.inl given),
      fun x given => whole x (.inr (.inl given)), texts, fun x given => whole x (.inr (.inr given))⟩

theorem set_kept (u : ApiKeyUpdateInternal) (row : Row) : u.Kept row (u.set row) := by
  refine ⟨?_, ?_, ?_, ?_, ?_, ?_, ?_, ?_, ?_, ?_⟩
  all_goals
    intro absent
    simp [set, absent]

theorem isEmpty_iff {u : ApiKeyUpdateInternal} : u.isEmpty = true ↔
    u = ⟨none, none, none, none, none, none, none, none, none, none⟩ := by
  cases u
  simp [isEmpty, and_assoc]

theorem set_of_empty {u : ApiKeyUpdateInternal} (nothing : u.isEmpty = true) (row : Row) :
    u.set row = row := by
  rw [isEmpty_iff.mp nothing]
  rfl

theorem dates_of_empty {u : ApiKeyUpdateInternal} (nothing : u.isEmpty = true) : u.dates = [] := by
  rw [isEmpty_iff.mp nothing]
  rfl

theorem given_of_empty {u : ApiKeyUpdateInternal} (nothing : u.isEmpty = true) (row : Row) :
    u.Given row := by
  have given := (u.set_given_iff row).mpr (by simp [dates_of_empty nothing])
  rwa [set_of_empty nothing] at given

end ApiKeyUpdateInternal

/- What the service does. -/

theorem findById_present (mem : row ∈ t.rows) (own : row.id = keyId)
    (text : Postgres.noNul keyId = true) :
    genericFindById t keyId = (fromSql row).mapError fun _ => .others := by
  have found := find_of_distinct t.ids mem
  rw [own] at found
  unfold genericFindById genericFindOneCore Table.first
  rw [if_pos text, found]
  cases read : fromSql row with
  | ok key => simp [read, Except.mapError]
  | error e =>
    cases fromSql_error read
    simp [read, Except.mapError]

theorem findById_absent (absent : ∀ row ∈ t.rows, row.id ≠ keyId)
    (text : Postgres.noNul keyId = true) : genericFindById t keyId = .error .notFound := by
  have found : t.rows.find? (fun row => row.id = keyId) = none :=
    List.find?_eq_none.mpr fun row mem => by simpa using absent row mem
  unfold genericFindById genericFindOneCore Table.first
  rw [if_pos text, found]
  rfl

inductive Upserted (t : Table labels) (keyId : String) (u : ApiKeyUpdateInternal) :
    Except StorageError ApiKey × Table labels → Prop where
  | refused (e : StorageError)
    (blocked : ∀ row ∈ t.rows, row.id = keyId →
      u.isEmpty = true ∨ ¬ u.Accepted labels keyId ∨ ¬ u.TokenFree keyId t.rows) :
    Upserted t keyId u (.error e, t)
  | found {row : Row} {key : ApiKey} (mem : row ∈ t.rows) (own : row.id = keyId)
    (nothing : u.isEmpty = true) (read : fromSql row = .ok key) : Upserted t keyId u (.ok key, t)
  | set {row : Row} {t' : Table labels} (mem : row ∈ t.rows) (own : row.id = keyId)
    (accepted : u.Accepted labels keyId) (free : u.TokenFree keyId t.rows)
    (rows : t'.rows = t.rows.map (u.setWhere keyId)) :
    Upserted t keyId u ((fromSql (u.set row)).mapError fun _ => .databaseError .others, t')

theorem upsert_upserted (t : Table labels) (now : Int) (keyId : String) (apiKey : ApiKeyUpdate) :
    Upserted t keyId (.from apiKey) (upsertApiKey t now keyId apiKey) := by
  have refused : (∀ row ∈ t.rows, row.id ≠ keyId) → ∀ err,
      Upserted t keyId (.from apiKey) (.error err, t) :=
    fun absent _ => .refused _ fun row mem own => absurd own (absent row mem)
  have inserted : (∀ row ∈ t.rows, row.id ≠ keyId) → ∀ newApiKey,
      Upserted t keyId (.from apiKey) (insertApiKey t now newApiKey) := by
    intro absent newApiKey
    rw [insert_fails]
    exact refused absent _
  have updated := update_updated t keyId (.from apiKey)
  unfold upsertApiKey updateApiKey updateById genericUpdateById
  generalize t.update keyId (.from apiKey) = x at updated
  cases updated with
  | empty nothing =>
    by_cases text : Postgres.noNul keyId = true
    · by_cases there : ∃ row ∈ t.rows, row.id = keyId
      · obtain ⟨row, mem, own⟩ := there
        simp only [Except.mapError, findById_present mem own text]
        cases read : fromSql row with
        | ok key => exact .found mem own nothing read
        | error e => exact .refused _ fun _ _ _ => .inl nothing
      · have absent : ∀ row ∈ t.rows, row.id ≠ keyId := fun row mem own => there ⟨row, mem, own⟩
        simp only [Except.mapError, findById_absent absent text]
        cases ApiKeyNew.tryFrom (.from apiKey) with
        | ok newApiKey => exact inserted absent newApiKey
        | error err => exact refused absent _
    · simp only [Except.mapError, genericFindById, if_neg text]
      exact .refused _ fun _ _ _ => .inl nothing
  | refused foreign => exact .refused _ fun _ _ _ => .inr (.inl foreign)
  | absent absent =>
    simp only [Except.mapError]
    cases ApiKeyNew.tryFrom (.from apiKey) with
    | ok newApiKey => exact inserted absent newApiKey
    | error err => exact refused absent _
  | taken taken => exact .refused _ fun _ _ _ => .inr (.inr taken)
  | set mem own some accepted free rows =>
    rename_i row t'
    have set := Upserted.set (u := .from apiKey) mem own accepted free rows
    cases read : fromSql ((ApiKeyUpdateInternal.from apiKey).set row) with
    | ok key =>
      rw [read] at set
      exact set
    | error e =>
      cases fromSql_error read
      rw [read] at set
      exact set

structure UpsertCorrect (t : Table labels) (now : Int) (keyId : String) (apiKey : ApiKeyUpdate) :
    Prop where
  ok : ∀ key, (upsertApiKey t now keyId apiKey).1 = .ok key →
    (∃ row, (upsertApiKey t now keyId apiKey).2.rows.filter (fun r => r.id = keyId) = [row] ∧
      (ApiKeyUpdateInternal.from apiKey).Given row ∧
      ∀ old ∈ t.rows, old.id = keyId → (ApiKeyUpdateInternal.from apiKey).Kept old row) ∧
    ∀ r : Row, r.id ≠ keyId →
      (r ∈ (upsertApiKey t now keyId apiKey).2.rows ↔ r ∈ t.rows)
  error : ∀ e, (upsertApiKey t now keyId apiKey).1 = .error e →
    (upsertApiKey t now keyId apiKey).2 = t
  creates : (ApiKeyUpdateInternal.from apiKey).GivesEvery →
    (∀ row ∈ t.rows, row.id ≠ keyId) →
    (∀ row ∈ t.rows, (ApiKeyUpdateInternal.from apiKey).token ≠ some row.token) →
    ∃ key row, (upsertApiKey t now keyId apiKey).1 = .ok key ∧
      row ∈ (upsertApiKey t now keyId apiKey).2.rows ∧ row.id = keyId ∧
      (ApiKeyUpdateInternal.from apiKey).Given row

def Creates (t : Table labels) (keyId : String) (u : ApiKeyUpdateInternal) : Prop :=
  u.GivesEvery ∧ (∀ row ∈ t.rows, row.id ≠ keyId) ∧ ∀ row ∈ t.rows, u.token ≠ some row.token

/-- The row of the key is changed to one that cannot be read. -/
def Spoils (t : Table labels) (keyId : String) (u : ApiKeyUpdateInternal) : Prop :=
  ∃ row ∈ t.rows, row.id = keyId ∧ u.Accepted labels keyId ∧ u.TokenFree keyId t.rows ∧
    u.set row ≠ row ∧ ¬ Readable (u.set row)

/-- The row of the key is given a date that is not whole microseconds. -/
def CutsDates (t : Table labels) (keyId : String) (u : ApiKeyUpdateInternal) : Prop :=
  ∃ row ∈ t.rows, row.id = keyId ∧ u.Accepted labels keyId ∧ u.TokenFree keyId t.rows ∧
    Readable (u.set row) ∧ ∃ date ∈ u.dates, ¬ Postgres.Whole date

section Setting

variable {u : ApiKeyUpdateInternal} {rows : List Row}

theorem only_row {old : Row} (mem : row ∈ t.rows) (own : row.id = keyId) (memOld : old ∈ t.rows)
    (same : old.id = keyId) : old = row :=
  List.inj_on_of_nodup_map t.ids memOld mem (same.trans own.symm)

theorem set_rows (mem : row ∈ t.rows) (own : row.id = keyId) :
    (t.rows.map (u.setWhere keyId)).filter (fun r => r.id = keyId) = [u.set row] ∧
      ∀ r : Row, r.id ≠ keyId → (r ∈ t.rows.map (u.setWhere keyId) ↔ r ∈ t.rows) := by
  constructor
  · have only := SerdeJson.filter_of_distinct t.ids mem
    rw [own] at only
    rw [List.filter_map]
    simp only [Function.comp_def, ApiKeyUpdateInternal.setWhere_id, only, List.map_singleton,
      ApiKeyUpdateInternal.setWhere_self own]
  · intro r other
    rw [List.mem_map]
    constructor
    · rintro ⟨old, memOld, rfl⟩
      rw [ApiKeyUpdateInternal.setWhere_id] at other
      rwa [ApiKeyUpdateInternal.setWhere_other other]
    · exact fun memOld => ⟨r, memOld, ApiKeyUpdateInternal.setWhere_other other⟩

theorem set_same (mem : row ∈ t.rows) (own : row.id = keyId) (same : u.set row = row) :
    t.rows.map (u.setWhere keyId) = t.rows := by
  have each : ∀ r ∈ t.rows, u.setWhere keyId r = id r := by
    intro r memR
    by_cases theirs : r.id = keyId
    · cases only_row mem own memR theirs
      rw [ApiKeyUpdateInternal.setWhere_self own, same]
      rfl
    · exact ApiKeyUpdateInternal.setWhere_other theirs
  rw [List.map_congr_left each, List.map_id]

theorem upserted_ok {x : Except StorageError ApiKey × Table labels} {key : ApiKey}
    (outcome : Upserted t keyId u x) (cuts : ¬ CutsDates t keyId u) (ok : x.1 = .ok key) :
    (∃ row, x.2.rows.filter (fun r => r.id = keyId) = [row] ∧ u.Given row ∧
      ∀ old ∈ t.rows, old.id = keyId → u.Kept old row) ∧
    ∀ r : Row, r.id ≠ keyId → (r ∈ x.2.rows ↔ r ∈ t.rows) := by
  cases outcome with
  | refused e blocked => cases ok
  | @found row _ mem own nothing read =>
    have only := SerdeJson.filter_of_distinct t.ids mem
    rw [own] at only
    refine ⟨⟨row, only, ApiKeyUpdateInternal.given_of_empty nothing row, ?_⟩, fun _ _ => Iff.rfl⟩
    intro old memOld same
    have kept := u.set_kept row
    rw [ApiKeyUpdateInternal.set_of_empty nothing] at kept
    rw [only_row mem own memOld same]
    exact kept
  | @set row t' mem own accepted free rows =>
    obtain ⟨only, others⟩ := set_rows mem own (u := u)
    rw [← rows] at only others
    have readable : Readable (u.set row) := by
      cases read : fromSql (u.set row) with
      | ok key => exact readable_iff.mpr ⟨key, read⟩
      | error e =>
        rw [read] at ok
        cases ok
    have whole : ∀ date ∈ u.dates, Postgres.Whole date := by
      intro date given
      by_contra part
      exact cuts ⟨row, mem, own, accepted, free, readable, date, given, part⟩
    refine ⟨⟨u.set row, only, (u.set_given_iff row).mpr whole, fun old memOld same => ?_⟩, others⟩
    rw [only_row mem own memOld same]
    exact u.set_kept row

theorem Upserted.reached {x : Except StorageError ApiKey × Table labels}
    (outcome : Upserted t keyId u x) (mem : row ∈ t.rows) (own : row.id = keyId)
    (some : u.isEmpty = false) (accepted : u.Accepted labels keyId)
    (free : u.TokenFree keyId t.rows) :
    ∃ t' : Table labels, t'.rows = t.rows.map (u.setWhere keyId) ∧
      x = ((fromSql (u.set row)).mapError fun _ => .databaseError .others, t') := by
  cases outcome with
  | refused e blocked =>
    rcases blocked row mem own with nothing | foreign | taken
    · exact absurd nothing (by simp [some])
    · exact absurd accepted foreign
    · exact absurd free taken
  | found _ _ nothing => exact absurd nothing (by simp [some])
  | @set row' t' mem' own' _ _ rows =>
    cases only_row mem own mem' own'
    exact ⟨t', rows, rfl⟩

theorem upserted_error {x : Except StorageError ApiKey × Table labels} {e : StorageError}
    (outcome : Upserted t keyId u x) (spoils : ¬ Spoils t keyId u) (error : x.1 = .error e) :
    x.2 = t := by
  cases outcome with
  | refused => rfl
  | found => cases error
  | @set row t' mem own accepted free rows =>
    have unreadable : ¬ Readable (u.set row) := by
      rw [readable_iff]
      rintro ⟨key, read⟩
      rw [read] at error
      cases error
    have same : u.set row = row := by
      by_contra changed
      exact spoils ⟨row, mem, own, accepted, free, changed, unreadable⟩
    exact Table.ext (rows.trans (set_same mem own same))

end Setting

/-- An upsert is one unless it should create a key, changes a row to one that it cannot read
back, or gives a date that Postgres cuts off. -/
theorem upsert_correct_iff (t : Table labels) (now : Int) (keyId : String)
    (apiKey : ApiKeyUpdate) :
    UpsertCorrect t now keyId apiKey ↔
      ¬ Creates t keyId (.from apiKey) ∧ ¬ Spoils t keyId (.from apiKey) ∧
        ¬ CutsDates t keyId (.from apiKey) := by
  have outcome := upsert_upserted t now keyId apiKey
  constructor
  · rintro ⟨ok, error, creates⟩
    generalize upsertApiKey t now keyId apiKey = x at outcome ok error creates
    refine ⟨?_, ?_, ?_⟩
    · rintro ⟨every, absent, fresh⟩
      obtain ⟨key, row, created, _, _, _⟩ := creates every absent fresh
      cases outcome with
      | refused e blocked => cases created
      | found mem own => exact absent _ mem own
      | set mem own => exact absent _ mem own
    · rintro ⟨row, mem, own, accepted, free, changed, unreadable⟩
      have some : (ApiKeyUpdateInternal.from apiKey).isEmpty = false := by
        by_contra nothing
        exact changed (ApiKeyUpdateInternal.set_of_empty (by simpa using nothing) row)
      obtain ⟨t', rows, rfl⟩ := outcome.reached mem own some accepted free
      cases read : fromSql ((ApiKeyUpdateInternal.from apiKey).set row) with
      | ok key => exact unreadable (readable_iff.mpr ⟨key, read⟩)
      | error e =>
        rw [read] at error
        have kept : t' = t := error _ rfl
        rw [kept] at rows
        have there : (ApiKeyUpdateInternal.from apiKey).set row ∈ t.rows := by
          rw [rows, ← ApiKeyUpdateInternal.setWhere_self own]
          exact List.mem_map_of_mem mem
        exact changed (only_row mem own there own)
    · rintro ⟨row, mem, own, accepted, free, readable, date, given, part⟩
      have some : (ApiKeyUpdateInternal.from apiKey).isEmpty = false := by
        by_contra nothing
        rw [ApiKeyUpdateInternal.dates_of_empty (by simpa using nothing)] at given
        cases given
      obtain ⟨t', rows, rfl⟩ := outcome.reached mem own some accepted free
      obtain ⟨key, read⟩ := readable_iff.mp readable
      rw [read] at ok
      obtain ⟨⟨stored, only, given', _⟩, _⟩ := ok key rfl
      rw [rows, (set_rows mem own).1, List.singleton_inj] at only
      rw [← only, ApiKeyUpdateInternal.set_given_iff] at given'
      exact part (given' date given)
  · rintro ⟨creates, spoils, cuts⟩
    exact ⟨fun key => upserted_ok outcome cuts, fun e => upserted_error outcome spoils,
      fun every absent fresh => absurd ⟨every, absent, fresh⟩ creates⟩

def sampleUpsert : ApiKeyUpdate :=
  .upsert (some ⟨"token"⟩) (some "salt") (some "redacted") (some "title") (some .secret)
    (some "merchant_1") (some 1000) (some none) (some none) (some none)

def labelledTable (labels : List String) (label : String) (known : label ∈ labels) :
    Table labels where
  rows := [⟨"key_1", ⟨"token"⟩, "salt", "redacted", "title", label, none, "merchant_1", 1000, none,
    none⟩]
  ids := by simp
  tokens := by simp
  types := by simpa using known

/-- No key is created in an empty table; in the table of the migration the update of a row
takes place although it is reported as failed; and half a microsecond is cut off. -/
theorem upsert_incorrect :
    ¬ UpsertCorrect (⟨[], by decide, by decide, by decide⟩ : Table codeLabels) 1000 "key_1"
        sampleUpsert ∧
      ¬ UpsertCorrect (labelledTable migrationLabels "Secret" (by decide)) 2000 "key_1"
        (.lastUsedUpdate (some 2000)) ∧
      ¬ UpsertCorrect (labelledTable codeLabels "secret" (by decide)) 2000 "key_1"
        (.lastUsedUpdate (some 2500)) := by
  refine ⟨?_, ?_, ?_⟩
  · rintro ⟨_, _, creates⟩
    obtain ⟨key, row, created, _⟩ := creates (by simp [ApiKeyUpdateInternal.GivesEvery,
      ApiKeyUpdateInternal.from, sampleUpsert]) (fun _ mem => absurd mem List.not_mem_nil)
      fun _ mem => absurd mem List.not_mem_nil
    cases created
  · rintro ⟨_, error, _⟩
    have same := congrArg Table.rows (error (.databaseError .others) rfl)
    cases same
  · rintro ⟨ok, _, _⟩
    obtain ⟨⟨row, only, given, _⟩, _⟩ := ok _ rfl
    obtain rfl := List.singleton_inj.mp only
    obtain ⟨_, _, _, _, _, _, _, lastUsedAt, _⟩ := given
    exact absurd (lastUsedAt _ rfl) (by decide)

end Mercado.ApiKeys
