import Mercado.ApiKeys.Table

/-! The functions on API keys: the queries of the repository, the service over them, and the
creation of a key. -/
namespace Mercado.ApiKeys

variable {labels : List String}

/- The generic queries, which translate the errors of diesel. -/

def genericInsert (t : Table labels) (now : Int) (values : Values) :
    Except DatabaseError ApiKey × Table labels :=
  let (result, t') := t.insert now values
  (result.mapError fun
    | .uniqueViolation => .uniqueViolation
    | _ => .others, t')

def genericUpdateById (t : Table labels) (id : String) (values : ApiKeyUpdateInternal) :
    Except DatabaseError ApiKey × Table labels :=
  let (result, t') := t.update id values
  (result.mapError fun
    | .queryBuilderError => .noFieldsToUpdate
    | .notFound => .notFound
    | _ => .others, t')

def genericDelete (t : Table labels) (id : String) : Except DatabaseError Bool × Table labels :=
  match t.delete id with
  | (.ok deleted, t') => (if 0 < deleted then .ok true else .error .notFound, t')
  | (.error _, t') => (.error .others, t')

def genericFindOneCore (t : Table labels) (p : Row → Bool) : Except DatabaseError ApiKey :=
  (t.first p).mapError fun
    | .notFound => .notFound
    | _ => .others

def genericFindById (t : Table labels) (id : String) : Except DatabaseError ApiKey :=
  if Postgres.noNul id then genericFindOneCore t fun row => row.id = id else .error .others

def toOptional {α : Type} : Except DatabaseError α → Except DatabaseError (Option α)
  | .ok value => .ok (some value)
  | .error .notFound => .ok none
  | .error e => .error e

def findOptionalByHashedApiKey (t : Table labels) (hashed : HashedApiKey) :
    Except DatabaseError (Option ApiKey) :=
  toOptional (genericFindOneCore t fun row => row.token = hashed)

/-- An update without fields is a lookup. -/
def updateById (t : Table labels) (id : String) (values : ApiKeyUpdate) :
    Except DatabaseError ApiKey × Table labels :=
  match genericUpdateById t id (.from values) with
  | (.error .noFieldsToUpdate, t') => (genericFindById t' id, t')
  | result => result

/- The service. -/

def insertApiKey (t : Table labels) (now : Int) (apiKey : ApiKeyNew) :
    Except StorageError ApiKey × Table labels :=
  let (result, t') := genericInsert t now apiKey.values
  (result.mapError .databaseError, t')

def updateApiKey (t : Table labels) (keyId : String) (apiKey : ApiKeyUpdate) :
    Except StorageError ApiKey × Table labels :=
  let (result, t') := updateById t keyId apiKey
  (result.mapError .databaseError, t')

def upsertApiKey (t : Table labels) (now : Int) (keyId : String) (apiKey : ApiKeyUpdate) :
    Except StorageError ApiKey × Table labels :=
  match updateApiKey t keyId apiKey with
  | (.ok result, t') => (.ok result, t')
  | (.error (.databaseError .notFound), t') =>
    match ApiKeyNew.tryFrom (.from apiKey) with
    | .ok newApiKey => insertApiKey t' now newApiKey
    | .error err => (.error (.valueNotFound err), t')
  | (.error err, t') => (.error err, t')

def deleteApiKey (t : Table labels) (keyId : String) : Except StorageError Bool × Table labels :=
  let (result, t') := genericDelete t keyId
  (result.mapError .databaseError, t')

def authenticateApiKey (t : Table labels) (token : String) : Except StorageError ApiKey :=
  match findOptionalByHashedApiKey t (.from token) with
  | .ok (some apiKey) => .ok apiKey
  | .ok none => .error (.databaseError .notFound)
  | .error err => .error (.databaseError err)

/- The creation of a key. -/

structure PlaintextApiKey where
  inner : String
  deriving DecidableEq, Repr

def prefixLen : Nat := 12

def PlaintextApiKey.prefixOf (key : PlaintextApiKey) : String :=
  String.ofList (key.inner.toList.take prefixLen)

/-- `hash` is the keyed BLAKE3 of a text in hexadecimal digits. -/
def PlaintextApiKey.keyedHash (hash : String → String) (key : PlaintextApiKey) : HashedApiKey :=
  .from (hash key.inner)

def newApiKey (hash : String → String) (plaintext : PlaintextApiKey) (title : String)
    (type_ : ApiKeyType) (merchantId : String) (now : Int) : ApiKeyNew where
  token := plaintext.keyedHash hash
  salt := plaintext.prefixOf
  redacted := plaintext.prefixOf
  title := title
  type_ := type_
  lastUsedAt := none
  createdBy := merchantId
  createdAt := now
  revokedBy := none
  revokedAt := none

inductive ApiErrorResponse where
  | internalServerError
  deriving DecidableEq, Repr

/-- There is no `hash` if the configured key is not one. The response holds the plaintext. -/
def createApiKey (t : Table labels) (hash : Option (String → String)) (plaintext : PlaintextApiKey)
    (title : String) (type_ : ApiKeyType) (merchantId : String) (now : Int) :
    Except ApiErrorResponse (ApiKey × PlaintextApiKey) × Table labels :=
  match hash with
  | none => (.error .internalServerError, t)
  | some hash =>
    let (result, t') := insertApiKey t now (newApiKey hash plaintext title type_ merchantId now)
    ((result.mapError fun _ => .internalServerError).map fun apiKey => (apiKey, plaintext), t')

theorem insert_fails (t : Table labels) (now : Int) (new : ApiKeyNew) :
    insertApiKey t now new = (.error (.databaseError .others), t) := by
  unfold insertApiKey genericInsert Table.insert
  by_cases accepted : Accepted labels new.values.type_ new.values.texts new.values.dates
  · rw [dif_pos accepted]
    rfl
  · rw [dif_neg accepted]
    rfl

/-- So no key is ever created. -/
theorem createApiKey_fails (t : Table labels) (hash : Option (String → String))
    (plaintext : PlaintextApiKey) (title : String) (type_ : ApiKeyType) (merchantId : String)
    (now : Int) :
    createApiKey t hash plaintext title type_ merchantId now = (.error .internalServerError, t) := by
  cases hash with
  | none => rfl
  | some hash =>
    simp only [createApiKey, insert_fails]
    rfl

end Mercado.ApiKeys
