import Mathlib.Data.List.Nodup
import Mercado.Errors
import Mercado.Numerals
import Mercado.Serde.Json

/-! What an entry of the drainer stream says: the fields that `TypedSql` is written as, and
what `StreamData` reads from them. -/
namespace Mercado.Drainer
open Results SerdeJson

inductive DBOperation (ι υ : Type) where
  | insert (insertable : ι)
  | update (updatable : υ)
  deriving DecidableEq, Repr

structure TypedSql (ι υ : Type) where
  op : DBOperation ι υ
  deriving DecidableEq, Repr

inductive ParsingError where
  | structParseFailure (name : String)
  deriving DecidableEq, Repr

structure StreamData (ι υ : Type) where
  requestId : String
  globalId : String
  typedSql : DBOperation ι υ
  pushedAt : Int64
  deriving DecidableEq, Repr

structure FieldMap where
  fields : List (String × String)
  distinct : (fields.map Prod.fst).Nodup

def FieldMap.Has (m : FieldMap) (name value : String) : Prop := (name, value) ∈ m.fields

theorem FieldMap.Has.unique {m : FieldMap} {name a b : String} (ha : m.Has name a)
    (hb : m.Has name b) : a = b :=
  congrArg Prod.snd (List.inj_on_of_nodup_map m.distinct ha hb rfl)

section Functions

variable {ι υ : Type} [Codec ι] [Codec υ]

def DBOperation.serialize : DBOperation ι υ → Except Error Value
  | .insert insertable => do
    let j ← Codec.serialize insertable
    return .object [("db_op", .string "insert"), ("data", .object [("insertable", j)])]
  | .update updatable => do
    let j ← Codec.serialize updatable
    return .object [("db_op", .string "update"), ("data", .object [("updatable", j)])]

def DBOperation.deserialize (j : Value) : Except Error (DBOperation ι υ) := do
  let (tag, data) ← adjacentlyTagged "db_op" "data" j
  match ← variantName tag with
  | "insert" => return .insert (← Codec.deserialize (← onlyField "insertable" data))
  | "update" => return .update (← Codec.deserialize (← onlyField "updatable" data))
  | name => .error (.unknownVariant name)

/-- The operation is flattened: its entries are the entries of the wrapper. -/
def TypedSql.serialize (sql : TypedSql ι υ) : Except Error Value := do
  match ← sql.op.serialize with
  | .object entries => return .object entries
  | _ => .error (.custom "can only flatten structs and maps")

def TypedSql.toFieldValuePairs (text : Text) (sql : TypedSql ι υ) (requestId globalId : String)
    (now : Int64) : Except DatabaseError (List (String × String)) := do
  let typedSql ← sql.serialize.mapError fun _ => .queryGenerationFailed
  return [("typed_sql", text.toString typedSql), ("global_id", globalId),
    ("request_id", requestId), ("pushed_at", toString now)]

def deserializeI64 : Value → Except Error Int64
  | .string s =>
    match parseI64 s with
    | some n => .ok (.ofInt n)
    | none => .error .invalidValue
  | .number n =>
    match n.asI64 with
    | some n => .ok (.ofInt n)
    | none => .error (.custom "could not convert number to i64")
  | _ => .error (.custom "unexpected data format - expected string or number")

def deserializeDbOp (text : Text) : Value → Except Error (DBOperation ι υ)
  | .string s => do DBOperation.deserialize (← text.fromStr s)
  | _ => .error (.custom "unexpected data format - expected string")

/-- Every field of a hash map of strings is a JSON string. -/
def StreamData.deserialize (text : Text) (fields : List (String × String)) :
    Except Error (StreamData ι υ) := do
  let requestId ← required "request_id" fields
  let globalId ← required "global_id" fields
  let typedSql ← deserializeDbOp text (.string (← required "typed_sql" fields))
  let pushedAt ← deserializeI64 (.string (← required "pushed_at" fields))
  return { requestId, globalId, typedSql, pushedAt }

def StreamData.fromHashmap (text : Text) (hashmap : FieldMap) :
    Except ParsingError (StreamData ι υ) :=
  (StreamData.deserialize text hashmap.fields).mapError fun _ => .structParseFailure "StreamData"

end Functions

section Operations

variable {ι υ : Type} [Codec ι] [Codec υ]

def OperationJson : DBOperation ι υ → Value → Prop
  | .insert insertable, j => ∃ tag data row,
    HasFields [("db_op", tag), ("data", data)] j ∧ NamesVariant "insert" tag ∧
      HasObject [("insertable", row)] data ∧ Codec.deserialize row = .ok insertable
  | .update updatable, j => ∃ tag data row,
    HasFields [("db_op", tag), ("data", data)] j ∧ NamesVariant "update" tag ∧
      HasObject [("updatable", row)] data ∧ Codec.deserialize row = .ok updatable

theorem deserialize_ok {op : DBOperation ι υ} {j : Value} :
    DBOperation.deserialize j = .ok op ↔ OperationJson op j := by
  constructor
  · intro read
    obtain ⟨⟨tag, data⟩, opened, read⟩ := bind_ok.mp read
    obtain ⟨name, named, read⟩ := bind_ok.mp read
    have whole := (adjacentlyTagged_ok (by decide)).mp opened
    have variant := variantName_ok.mp named
    split at read
    · obtain ⟨row, only, read⟩ := bind_ok.mp read
      obtain ⟨insertable, decoded, read⟩ := bind_ok.mp read
      cases read
      exact ⟨tag, data, row, whole, variant, onlyField_ok.mp only, decoded⟩
    · obtain ⟨row, only, read⟩ := bind_ok.mp read
      obtain ⟨updatable, decoded, read⟩ := bind_ok.mp read
      cases read
      exact ⟨tag, data, row, whole, variant, onlyField_ok.mp only, decoded⟩
    · cases read
  · cases op
    all_goals
      rintro ⟨tag, data, row, whole, variant, only, decoded⟩
      refine bind_ok.mpr ⟨(tag, data), (adjacentlyTagged_ok (by decide)).mpr whole, ?_⟩
      refine bind_ok.mpr ⟨_, variantName_ok.mpr variant, ?_⟩
      exact bind_ok.mpr ⟨row, onlyField_ok.mpr only, bind_ok.mpr ⟨_, decoded, rfl⟩⟩

theorem serialize_operation (faithfulι : Codec.Faithful ι) (faithfulυ : Codec.Faithful υ)
    (op : DBOperation ι υ) : ∃ entries, op.serialize = .ok (.object entries) ∧
      OperationJson op (.object entries) := by
  have self : ∀ fields : List (String × Value), (fields.map Prod.fst).Nodup →
      HasObject fields (.object fields) :=
    fun fields distinct => ⟨fields, rfl, hasEntries_self distinct⟩
  cases op with
  | insert insertable =>
    obtain ⟨row, written, read⟩ := faithfulι insertable
    refine ⟨_, bind_ok.mpr ⟨row, written, rfl⟩, ?_⟩
    exact ⟨_, _, row, .inl (self _ (by simp)), .inl rfl, self _ (by simp), read⟩
  | update updatable =>
    obtain ⟨row, written, read⟩ := faithfulυ updatable
    refine ⟨_, bind_ok.mpr ⟨row, written, rfl⟩, ?_⟩
    exact ⟨_, _, row, .inl (self _ (by simp)), .inl rfl, self _ (by simp), read⟩

theorem deserializeI64_ok {s : String} {n : Int64} :
    deserializeI64 (.string s) = .ok n ↔ I64Numeral s n.toInt := by
  cases parsed : parseI64 s with
  | none =>
    simp only [deserializeI64, parsed, reduceCtorEq, false_iff]
    intro numeral
    cases parsed.symm.trans (parseI64_iff.mpr numeral)
  | some m =>
    obtain ⟨low, high⟩ := parseI64_range parsed
    have same : (Int64.ofInt m).toInt = m := Int64.toInt_ofInt_of_le low high
    simp only [deserializeI64, parsed, Except.ok.injEq]
    constructor
    · rintro rfl
      rw [same]
      exact parseI64_iff.mp parsed
    · intro numeral
      cases parsed.symm.trans (parseI64_iff.mpr numeral)
      rw [Int64.ofInt_toInt]

theorem deserializeDbOp_ok {text : Text} {s : String} {op : DBOperation ι υ} :
    deserializeDbOp text (.string s) = .ok op ↔ ∃ j, text.fromStr s = .ok j ∧ OperationJson op j := by
  simp only [deserializeDbOp, bind_ok, deserialize_ok]

theorem fromHashmap_ok {text : Text} {m : FieldMap} {data : StreamData ι υ} :
    StreamData.fromHashmap text m = .ok data ↔
      m.Has "request_id" data.requestId ∧ m.Has "global_id" data.globalId ∧
      (∃ s j, m.Has "typed_sql" s ∧ text.fromStr s = .ok j ∧ OperationJson data.typedSql j) ∧
      ∃ s, m.Has "pushed_at" s ∧ I64Numeral s data.pushedAt.toInt := by
  have read : StreamData.fromHashmap text m = .ok data ↔
      StreamData.deserialize text m.fields = .ok data := by
    unfold StreamData.fromHashmap
    cases (StreamData.deserialize text m.fields : Except Error (StreamData ι υ)) <;>
      simp [Except.mapError]
  rw [read]
  simp only [StreamData.deserialize, bind_ok, required_iff_mem m.distinct, deserializeDbOp_ok,
    deserializeI64_ok]
  constructor
  · rintro ⟨requestId, request, globalId, globalOf, s, sql, op, ⟨j, parsed, states⟩, t, pushed, n,
      numeral, ⟨⟩⟩
    exact ⟨request, globalOf, ⟨s, j, sql, parsed, states⟩, t, pushed, numeral⟩
  · rintro ⟨request, globalOf, ⟨s, j, sql, parsed, states⟩, t, pushed, numeral⟩
    exact ⟨_, request, _, globalOf, s, sql, _, ⟨j, parsed, states⟩, t, pushed, _, numeral, rfl⟩

theorem toFieldValuePairs_ok (faithfulι : Codec.Faithful ι) (faithfulυ : Codec.Faithful υ)
    (text : Text) (sql : TypedSql ι υ) (requestId globalId : String) (now : Int64) :
    ∃ j, sql.serialize = .ok j ∧ OperationJson sql.op j ∧
      sql.toFieldValuePairs text requestId globalId now =
        .ok [("typed_sql", text.toString j), ("global_id", globalId), ("request_id", requestId),
          ("pushed_at", toString now)] := by
  obtain ⟨entries, written, states⟩ := serialize_operation faithfulι faithfulυ sql.op
  have flat : sql.serialize = .ok (.object entries) := bind_ok.mpr ⟨_, written, rfl⟩
  refine ⟨_, flat, states, ?_⟩
  rw [TypedSql.toFieldValuePairs, flat]
  rfl

theorem fromHashmap_error {text : Text} {m : FieldMap} :
    (∃ e, (StreamData.fromHashmap text m : Except _ (StreamData ι υ)) = .error e) ↔
      ∀ data : StreamData ι υ, StreamData.fromHashmap text m ≠ .ok data := by
  cases (StreamData.fromHashmap text m : Except _ (StreamData ι υ)) <;> simp

theorem written_entry_read (faithfulι : Codec.Faithful ι) (faithfulυ : Codec.Faithful υ)
    {text : Text}
    (readsBack : ∀ (sql : TypedSql ι υ) j, sql.serialize = .ok j →
      text.fromStr (text.toString j) = .ok j)
    (sql : TypedSql ι υ) (requestId globalId : String) (pushedAt : Int64) :
    ∃ pairs, sql.toFieldValuePairs text requestId globalId pushedAt = .ok pairs ∧
      ∀ m : FieldMap, m.fields.Perm pairs →
        StreamData.fromHashmap text m = .ok ⟨requestId, globalId, sql.op, pushedAt⟩ := by
  obtain ⟨j, written, states, pairs⟩ :=
    toFieldValuePairs_ok faithfulι faithfulυ text sql requestId globalId pushedAt
  refine ⟨_, pairs, fun m same => fromHashmap_ok.mpr ?_⟩
  have has : ∀ name value, (name, value) ∈ [("typed_sql", text.toString j),
      ("global_id", globalId), ("request_id", requestId), ("pushed_at", toString pushedAt)] →
      m.Has name value := fun name value mem => same.mem_iff.mpr mem
  have numeral : I64Numeral (toString pushedAt) pushedAt.toInt :=
    parseI64_iff.mp (parseI64_toString pushedAt.le_toInt pushedAt.toInt_lt)
  exact ⟨has _ _ (by simp), has _ _ (by simp),
    ⟨_, j, has _ _ (by simp), readsBack sql j written, states⟩, _, has _ _ (by simp), numeral⟩

theorem fromHashmap_unread_iff {text : Text} (m : FieldMap) :
    (∃ e, (StreamData.fromHashmap text m : Except _ (StreamData ι υ)) = .error e) ↔
      (∃ name ∈ ["request_id", "global_id", "typed_sql", "pushed_at"],
        ∀ s, ¬ m.Has name s) ∨
      (∃ s, m.Has "typed_sql" s ∧
        ∀ j (op : DBOperation ι υ), text.fromStr s = .ok j → ¬ OperationJson op j) ∨
      ∃ s, m.Has "pushed_at" s ∧ ∀ n, ¬ I64Numeral s n := by
  rw [fromHashmap_error]
  constructor
  · intro unread
    by_contra readable
    simp only [not_or, not_exists, not_and, not_forall, not_not] at readable
    obtain ⟨there, sqls, numerals⟩ := readable
    obtain ⟨requestId, request⟩ := there "request_id" (by simp)
    obtain ⟨globalId, globalOf⟩ := there "global_id" (by simp)
    obtain ⟨s, sql⟩ := there "typed_sql" (by simp)
    obtain ⟨t, pushed⟩ := there "pushed_at" (by simp)
    obtain ⟨j, op, parsed, states⟩ := sqls s sql
    obtain ⟨n, numeral⟩ := numerals t pushed
    obtain ⟨low, high⟩ := parseI64_range (parseI64_iff.mpr numeral)
    have same : (Int64.ofInt n).toInt = n := Int64.toInt_ofInt_of_le low high
    exact unread ⟨requestId, globalId, op, .ofInt n⟩ (fromHashmap_ok.mpr
      ⟨request, globalOf, ⟨s, j, sql, parsed, states⟩, t, pushed, same.symm ▸ numeral⟩)
  · intro unreadable data read
    obtain ⟨request, globalOf, ⟨s, j, sql, parsed, states⟩, t, pushed, numeral⟩ :=
      fromHashmap_ok.mp read
    rcases unreadable with ⟨name, known, missing⟩ | ⟨s', sql', other⟩ | ⟨t', pushed', other⟩
    · simp only [List.mem_cons, List.not_mem_nil, or_false] at known
      rcases known with rfl | rfl | rfl | rfl
      · exact missing _ request
      · exact missing _ globalOf
      · exact missing _ sql
      · exact missing _ pushed
    · cases sql.unique sql'
      exact other j _ parsed states
    · cases pushed.unique pushed'
      exact other _ numeral

/-- What is written into an entry is read from it, in whatever order its fields come; and an
entry cannot be read only if a field is missing or does not say what it should. -/
theorem entry_round_trip (text : Text) :
    (Codec.Faithful ι → Codec.Faithful υ →
      (∀ (sql : TypedSql ι υ) j, sql.serialize = .ok j → text.fromStr (text.toString j) = .ok j) →
      ∀ (sql : TypedSql ι υ) (requestId globalId : String) (pushedAt : Int64),
        ∃ pairs, sql.toFieldValuePairs text requestId globalId pushedAt = .ok pairs ∧
          ∀ m : FieldMap, m.fields.Perm pairs →
            StreamData.fromHashmap text m = .ok ⟨requestId, globalId, sql.op, pushedAt⟩) ∧
    ∀ m : FieldMap,
      (∃ e, (StreamData.fromHashmap text m : Except _ (StreamData ι υ)) = .error e) ↔
        (∃ name ∈ ["request_id", "global_id", "typed_sql", "pushed_at"],
          ∀ s, ¬ m.Has name s) ∨
        (∃ s, m.Has "typed_sql" s ∧
          ∀ j (op : DBOperation ι υ), text.fromStr s = .ok j → ¬ OperationJson op j) ∨
        ∃ s, m.Has "pushed_at" s ∧ ∀ n, ¬ I64Numeral s n := by
  constructor
  · intro faithfulι faithfulυ readsBack sql requestId globalId pushedAt
    exact written_entry_read faithfulι faithfulυ readsBack sql requestId globalId pushedAt
  · exact fromHashmap_unread_iff

end Operations

instance : Codec Unit where
  serialize := fun _ => .ok .null
  deserialize
    | .null => .ok ()
    | _ => .error .invalidType

theorem unit_faithful : Codec.Faithful Unit := fun _ => ⟨.null, rfl, rfl⟩

def sampleText : Text where
  toString
    | .object [("db_op", .string op), ("data", .object [(name, .null)])] =>
      "\x7b\"db_op\":\"" ++ op ++ "\",\"data\":\x7b\"" ++ name ++ "\":null\x7d\x7d"
    | _ => "null"
  fromStr s :=
    if s = "\x7b\"db_op\":\"insert\",\"data\":\x7b\"insertable\":null\x7d\x7d" then
      .ok (.object [("db_op", .string "insert"), ("data", .object [("insertable", .null)])])
    else if s = "\x7b\"db_op\":\"update\",\"data\":\x7b\"updatable\":null\x7d\x7d" then
      .ok (.object [("db_op", .string "update"), ("data", .object [("updatable", .null)])])
    else .ok .null

def sampleEntry : FieldMap where
  fields := [("pushed_at", "-9223372036854775808"), ("request_id", "r"), ("global_id", "g"),
    ("typed_sql", "\x7b\"db_op\":\"insert\",\"data\":\x7b\"insertable\":null\x7d\x7d")]
  distinct := by decide

theorem entry_round_trip_earliest :
    StreamData.fromHashmap sampleText sampleEntry =
      .ok ⟨"r", "g", (.insert () : DBOperation Unit Unit), Int64.minValue⟩ ∧
    ∃ e, (StreamData.fromHashmap sampleText ⟨sampleEntry.fields.tail, by decide⟩ :
      Except _ (StreamData Unit Unit)) = .error e := by
  have readsBack : ∀ (sql : TypedSql Unit Unit) j, sql.serialize = .ok j →
      sampleText.fromStr (sampleText.toString j) = .ok j := by
    rintro ⟨op⟩ j written
    cases op <;> cases written <;> rfl
  have round := entry_round_trip (ι := Unit) (υ := Unit) sampleText
  obtain ⟨pairs, written, read⟩ :=
    round.1 unit_faithful unit_faithful readsBack ⟨.insert ()⟩ "r" "g" Int64.minValue
  constructor
  · refine read sampleEntry ?_
    cases written
    decide
  · refine (round.2 _).mpr (.inl ⟨"pushed_at", by simp, fun s mem => ?_⟩)
    simp [FieldMap.Has, sampleEntry] at mem

/-- At this commit no row can be inserted or updated through the drainer. -/
inductive Insertable where
  deriving DecidableEq, Repr

inductive Updateable where
  deriving DecidableEq, Repr

def noVariant {α : Type} (j : Value) : Except Error α := do
  let (tag, _) ← adjacentlyTagged "table" "data" j
  .error (.unknownVariant (← variantName tag))

instance : Codec Insertable where
  serialize := nofun
  deserialize := noVariant

instance : Codec Updateable where
  serialize := nofun
  deserialize := noVariant

end Mercado.Drainer
