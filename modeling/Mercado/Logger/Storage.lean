import Mathlib.Data.List.AList

/-! The values that the spans of a trace carry: a span starts with those of its parent, gets
further ones while it is open, and hands some of them back when it is closed. -/
namespace Mercado.Logger

/-- A number is the text that serde_json writes for it. -/
inductive Value where
  | null
  | bool (b : Bool)
  | number (text : String)
  | string (s : String)
  | array (items : List Value)
  | object (entries : List (String × Value))

/-- What a field is recorded with. A float that is not finite is no number. -/
inductive Recorded where
  | i64 (value : Int)
  | u64 (value : Nat)
  | f64 (text : Option String)
  | bool (value : Bool)
  | str (value : String)
  | debug (text : String)

def Recorded.value : Recorded → Value
  | .i64 value => .number (toString value)
  | .u64 value => .number (toString value)
  | .f64 (some text) => .number text
  | .f64 none => .null
  | .bool value => .bool value
  | .str value => .string value
  | .debug text => .string text

/-- The key it is stored under. Only `record_debug` looks at the name. -/
def Recorded.key (name : String) : Recorded → Option String
  | .debug _ =>
    if "log.".toList.isPrefixOf name.toList then none
    else if "r#".toList.isPrefixOf name.toList then some (.ofList (name.toList.drop 2))
    else some name
  | _ => some name

abbrev Fields := List (String × Recorded)

abbrev Values := AList fun _ : String => Value

structure Storage where
  values : Values := ∅

namespace Storage

def insert (s : Storage) (key : String) (value : Value) : Storage := ⟨s.values.insert key value⟩

def visit (s : Storage) (field : String × Recorded) : Storage :=
  match field.2.key field.1 with
  | none => s
  | some key => s.insert key field.2.value

def record (fields : Fields) (s : Storage) : Storage := fields.foldl visit s

def get (s : Storage) (key : String) : Option Value := s.values.lookup key

theorem get_insert (s : Storage) (key k : String) (value : Value) :
    (s.insert key value).get k = if k = key then some value else s.get k := by
  split
  · rename_i same
    rw [same]
    exact AList.lookup_insert s.values
  · rename_i other
    exact AList.lookup_insert_ne other

end Storage

def persistentKeys : List String :=
  ["payment_id", "connector_name", "merchant_id", "flow", "payment_method", "status_code"]

/-- `instant` is when the span was entered first, in milliseconds. -/
structure Span where
  parent : Option Nat
  storage : Option Storage := none
  instant : Option Nat := none
  closed : Bool := false

/-- The spans in the order they were created in, which are their ids. One that is closed can
no longer be looked up. -/
abbrev Registry := List Span

namespace Registry

def span (r : Registry) (id : Nat) : Option Span := r[id]?.filter fun span => !span.closed

def setStorage (r : Registry) (id : Nat) (storage : Storage) : Registry :=
  List.modify r id fun span => { span with storage := some storage }

def insertValue (r : Registry) (id : Nat) (key : String) (value : Value) : Registry :=
  List.modify r id fun span => { span with storage := span.storage.map (·.insert key value) }

end Registry

/- `StorageSubscription`. An `expect` that fails is none. -/

def onNewSpan (fields : Fields) (id : Nat) (r : Registry) : Option Registry := do
  let span ← r.span id
  let visitor := match span.parent.bind r.span with
    | some parentSpan => parentSpan.storage.getD {}
    | none => {}
  return r.setStorage id (visitor.record fields)

def onRecord (id : Nat) (values : Fields) (r : Registry) : Option Registry := do
  let span ← r.span id
  let visitor ← span.storage
  return r.setStorage id (visitor.record values)

def onEnter (id now : Nat) (r : Registry) : Option Registry := do
  let span ← r.span id
  if span.instant.isNone then
    return List.modify r id fun span => { span with instant := some now }
  else
    return r

def handUp (parent : Option Nat) (values : Values) (r : Registry) : Registry :=
  values.entries.foldl (fun r entry =>
    if entry.1 ∈ persistentKeys then
      match parent with
      | some parent => r.insertValue parent entry.1 entry.2
      | none => r
    else r) r

def onClose (id now : Nat) (r : Registry) : Option Registry := do
  let span ← r.span id
  let elapsedMilliseconds := (span.instant.map (now - ·)).getD 0
  let r := match span.storage with
    | some s => handUp span.parent s.values r
    | none => r
  let visitor ← (r.span id).bind (·.storage)
  return r.setStorage id
    (visitor.insert "elapsed_milliseconds" (.number (toString elapsedMilliseconds)))

end Mercado.Logger
