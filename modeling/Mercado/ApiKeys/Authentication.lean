import Mercado.ApiKeys.Service

/-! What a presented key string authenticates as. -/
namespace Mercado.ApiKeys

variable {labels : List String} {t : Table labels} {row : Row} {key : ApiKey} {token : String}

theorem authenticate_present (mem : row ∈ t.rows) (presented : row.token = .from token) :
    authenticateApiKey t token = (fromSql row).mapError fun _ => .databaseError .others := by
  have opened : t.first (fun row => row.token = .from token) = fromSql row := by
    have found := find_of_distinct t.tokens mem
    rw [presented] at found
    rw [Table.first, found]
  unfold authenticateApiKey findOptionalByHashedApiKey genericFindOneCore
  rw [opened]
  cases read : fromSql row with
  | ok key => rfl
  | error e =>
    cases fromSql_error read
    rfl

theorem authenticate_absent (absent : ∀ row ∈ t.rows, row.token ≠ .from token) :
    authenticateApiKey t token = .error (.databaseError .notFound) := by
  have found : t.rows.find? (fun row => row.token = .from token) = none :=
    List.find?_eq_none.mpr fun row mem => by simpa using absent row mem
  unfold authenticateApiKey findOptionalByHashedApiKey genericFindOneCore Table.first
  rw [found]
  rfl

theorem authenticate_ok : authenticateApiKey t token = .ok key ↔
    ∃ row ∈ t.rows, row.token = .from token ∧ fromSql row = .ok key := by
  constructor
  · intro authenticated
    by_contra nobody
    by_cases there : ∃ row ∈ t.rows, row.token = .from token
    · obtain ⟨row, mem, presented⟩ := there
      rw [authenticate_present mem presented] at authenticated
      cases read : fromSql row with
      | error e =>
        rw [read] at authenticated
        cases authenticated
      | ok key' =>
        rw [read] at authenticated
        cases authenticated
        exact nobody ⟨row, mem, presented, read⟩
    · have absent : ∀ row ∈ t.rows, row.token ≠ .from token :=
        fun row mem presented => there ⟨row, mem, presented⟩
      cases (authenticate_absent absent).symm.trans authenticated
  · rintro ⟨row, mem, presented, read⟩
    rw [authenticate_present mem presented, read]
    rfl

/- Whole lives of keys. -/

inductive Operation where
  | insert (apiKey : ApiKeyNew)
  | update (keyId : String) (apiKey : ApiKeyUpdate)
  | upsert (keyId : String) (apiKey : ApiKeyUpdate)
  | delete (keyId : String)

def Operation.run (now : Int) (t : Table labels) : Operation → Table labels
  | .insert apiKey => (insertApiKey t now apiKey).2
  | .update keyId apiKey => (updateApiKey t keyId apiKey).2
  | .upsert keyId apiKey => (upsertApiKey t now keyId apiKey).2
  | .delete keyId => (deleteApiKey t keyId).2

def run (t : Table labels) (operations : List (Int × Operation)) : Table labels :=
  operations.foldl (fun t x => x.2.run x.1 t) t

def RevokedAt {τ : Type} (now : Int) (row : Columns τ) : Prop :=
  ∃ at_, row.revokedAt = some at_ ∧ at_ ≤ now

/-- Whatever has happened to the table, a presented string never authenticates as a revoked
key just when no row with it as its token is revoked, of those whose type can be read. -/
theorem revoked_authenticates (initial : Table labels) (operations : List (Int × Operation))
    (token : String) (now : Int) :
    (∀ key, authenticateApiKey (run initial operations) token = .ok key → ¬ RevokedAt now key) ↔
      ∀ row ∈ (run initial operations).rows, row.token = .from token → Readable row →
        ¬ RevokedAt now row := by
  constructor
  · intro never row mem presented readable revoked
    obtain ⟨key, read⟩ := readable_iff.mp readable
    refine never key (authenticate_ok.mpr ⟨row, mem, presented, read⟩) ?_
    obtain ⟨type_, _, rfl⟩ := fromSql_ok.mp read
    exact revoked
  · intro none key authenticated revoked
    obtain ⟨row, mem, presented, read⟩ := authenticate_ok.mp authenticated
    refine none row mem presented (readable_iff.mpr ⟨key, read⟩) ?_
    obtain ⟨type_, _, rfl⟩ := fromSql_ok.mp read
    exact revoked

theorem updateApiKey_table (t : Table labels) (keyId : String) (apiKey : ApiKeyUpdate) :
    (updateApiKey t keyId apiKey).2 = (t.update keyId (.from apiKey)).2 := by
  unfold updateApiKey updateById genericUpdateById
  cases t.update keyId (.from apiKey) with
  | mk result t' =>
    cases result with
    | ok key => rfl
    | error e => cases e <;> rfl

/-- Revoking a key changes nothing about what its token authenticates as. -/
theorem revoke_ignored (mem : row ∈ t.rows) (readable : Readable row) {revokedBy : Option String}
    {at_ now : Int} (past : Postgres.stored at_ ≤ now)
    (accepted : (ApiKeyUpdateInternal.from (.revoke revokedBy (some at_))).Accepted labels row.id) :
    ∃ key, authenticateApiKey (updateApiKey t row.id (.revoke revokedBy (some at_))).2
        row.token.inner = .ok key ∧ RevokedAt now key := by
  have updated := update_updated t row.id (.from (.revoke revokedBy (some at_)))
  rw [updateApiKey_table]
  generalize t.update row.id (.from (.revoke revokedBy (some at_))) = x at updated
  cases updated with
  | empty nothing => cases nothing
  | refused refused => exact absurd accepted refused
  | absent absent => exact absurd rfl (absent row mem)
  | taken taken => exact absurd (fun _ _ => nofun) taken
  | @set row' t' mem' own _ _ _ rows =>
    cases List.inj_on_of_nodup_map t.ids mem' mem own
    have there : (ApiKeyUpdateInternal.from (.revoke revokedBy (some at_))).set row ∈ t'.rows := by
      rw [rows, ← ApiKeyUpdateInternal.setWhere_self rfl]
      exact List.mem_map_of_mem mem
    obtain ⟨type_, read⟩ := Option.isSome_iff_exists.mp readable
    exact ⟨_, authenticate_ok.mpr ⟨_, there, rfl, fromSql_ok.mpr ⟨type_, read, rfl⟩⟩,
      Postgres.stored at_, rfl, past⟩

def samplePlaintext : PlaintextApiKey :=
  ⟨"dev_0123456789abcdefghijklmnopqrstuvwxyzABCDEFGHIJKLMNOPQRSTUVWXYZ01"⟩

def sampleDigest : String := "1fafb2b807ec8d62539014eef19de341194f4a71c17b0d08723c8f96d9de098f"

def sampleRow : Row where
  id := "key_1"
  token := ⟨sampleDigest⟩
  salt := "dev_01234567"
  redacted := "dev_01234567"
  title := "title"
  type_ := "secret"
  lastUsedAt := none
  createdBy := "merchant_1"
  createdAt := 1000
  revokedBy := none
  revokedAt := none

def sampleTable : Table codeLabels where
  rows := [sampleRow]
  ids := by decide
  tokens := by decide
  types := by decide

/-- A key is revoked through the update, and its token authenticates as before. -/
theorem revoked_key_authenticates :
    ∃ key, authenticateApiKey
        (run sampleTable [(2000, .update "key_1" (.revoke (some "merchant_1") (some 2000)))])
        sampleDigest = .ok key ∧ RevokedAt 3000 key := by
  refine ⟨_, rfl, 2000, ?_, ?_⟩
  · decide
  · decide

/-- With the labels that the migration gives the enum, no row can be read. -/
theorem migration_unreadable (t : Table migrationLabels) (token : String) (key : ApiKey) :
    authenticateApiKey t token ≠ .ok key := by
  intro authenticated
  obtain ⟨row, mem, _, read⟩ := authenticate_ok.mp authenticated
  obtain ⟨type_, readable, _⟩ := fromSql_ok.mp read
  have label := t.types row mem
  simp only [migrationLabels, List.mem_cons, List.not_mem_nil, or_false] at label
  rcases label with label | label <;> rw [label] at readable <;> cases readable

/- Created keys. -/

/-- The row of a created key; which label its type has is left to the database. -/
def ApiKeyNew.StoredAs (new : ApiKeyNew) (row : Row) : Prop :=
  row.token = new.token ∧ row.salt = new.salt ∧ row.redacted = new.redacted ∧
    row.title = new.title ∧ row.lastUsedAt = new.lastUsedAt.map Postgres.stored ∧
    row.createdBy = new.createdBy ∧ row.createdAt = Postgres.stored new.createdAt ∧
    row.revokedBy = new.revokedBy ∧ row.revokedAt = new.revokedAt.map Postgres.stored

/-- The plaintext finds exactly the row, and what the row stores finds nothing. -/
def KeyAuthenticates (t : Table labels) (plaintext : PlaintextApiKey) (row : Row) : Prop :=
  (∃ key, fromSql row = .ok key ∧ authenticateApiKey t plaintext.inner = .ok key) ∧
    ∃ e, authenticateApiKey t row.token.inner = .error e

/-- The presented string is compared with the stored hashes as it is: no plaintext is ever
found, and what the table stores authenticates if its type can be read. -/
theorem created_key_rejected (hash : String → String) (plaintext : PlaintextApiKey)
    (title : String) (type_ : ApiKeyType) (merchantId : String) (now : Int) (mem : row ∈ t.rows)
    (stored : (newApiKey hash plaintext title type_ merchantId now).StoredAs row)
    (notStored : ∀ row ∈ t.rows, row.token ≠ .from plaintext.inner) :
    ¬ KeyAuthenticates t plaintext row ∧
      authenticateApiKey t plaintext.inner = .error (.databaseError .notFound) ∧
      (Readable row →
        ∃ key, fromSql row = .ok key ∧ authenticateApiKey t (hash plaintext.inner) = .ok key) := by
  have rejected := authenticate_absent notStored
  refine ⟨?_, rejected, fun readable => ?_⟩
  · rintro ⟨⟨key, _, authenticated⟩, _⟩
    cases rejected.symm.trans authenticated
  · obtain ⟨key, read⟩ := readable_iff.mp readable
    exact ⟨key, read, authenticate_ok.mpr ⟨row, mem, stored.1, read⟩⟩

theorem created_key_rejected_sample :
    ¬ KeyAuthenticates sampleTable samplePlaintext sampleRow := by
  have mem : sampleRow ∈ sampleTable.rows := List.mem_singleton_self _
  exact (created_key_rejected (fun _ => sampleDigest) samplePlaintext "title" .secret
    "merchant_1" 1000 mem ⟨rfl, rfl, rfl, rfl, rfl, rfl, by decide, rfl, rfl⟩ (by decide)).1

/-- The sample key cannot log in, and its stored hash can. -/
theorem stored_hash_authenticates :
    (newApiKey (fun _ => sampleDigest) samplePlaintext "title" .secret "merchant_1" 1000).StoredAs
        sampleRow ∧
      authenticateApiKey sampleTable samplePlaintext.inner = .error (.databaseError .notFound) ∧
      ∃ key, fromSql sampleRow = .ok key ∧
        authenticateApiKey sampleTable sampleRow.token.inner = .ok key :=
  ⟨⟨rfl, rfl, rfl, rfl, rfl, rfl, by decide, rfl, rfl⟩, rfl, _, rfl, rfl⟩

end Mercado.ApiKeys
