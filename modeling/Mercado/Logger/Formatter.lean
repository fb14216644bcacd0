import Mercado.Logger.Storage

/-! Log lines: a JSON object of implicit entries, defaults, the fields of an event and the
values of its span. -/
namespace Mercado.Logger

def implicitKeys : List String :=
  ["message", "hostname", "pid", "env", "version", "build", "level", "target", "service", "line",
    "file", "fn", "full_name", "time"]

/-- Keys that are not implicit but stand beside those that are. -/
def extraImplicitKeys : List String :=
  ["flow", "merchant_authentication", "merchant_id", "request_method", "request_url_path",
    "request_id", "global_id", "session_id", "workflow_id"]

inductive Level where
  | trace | debug | info | warn | error
  deriving DecidableEq, Repr

def Level.display : Level → String
  | .trace => "TRACE"
  | .debug => "DEBUG"
  | .info => "INFO"
  | .warn => "WARN"
  | .error => "ERROR"

structure Metadata where
  name : String
  level : Level
  target : String
  file : Option String
  line : Option Nat

structure Event where
  metadata : Metadata
  fields : Fields

/-- A span as the formatter sees it. It has a storage if some layer has given it one. -/
structure SpanRef where
  metadata : Metadata
  storage : Option Storage

structure Features where
  vergen : Bool
  logExtraImplicitFields : Bool
  logCustomEntriesToExtra : Bool

structure FormattingLayer where
  pid : Nat
  hostname : String
  env : String
  service : String
  version : String
  build : String
  defaultFields : Values

inductive RecordType where
  | enterSpan | exitSpan | event

def RecordType.display : RecordType → String
  | .enterSpan => "START"
  | .exitSpan => "END"
  | .event => "EVENT"

def isExtra (key : String) : Bool := !implicitKeys.contains key

def isExtraImplicit (key : String) : Bool := isExtra key && extraImplicitKeys.contains key

/- What the formatter itself logs. -/

def formatterMetadata (level : Level) (line : Nat) : Metadata where
  name := "event crates/router_env/src/logger/formatter.rs:" ++ toString line
  level := level
  target := "router_env::logger::formatter"
  file := some "crates/router_env/src/logger/formatter.rs"
  line := some line

def reservedField (key : String) : Event where
  metadata := formatterMetadata .warn 234
  fields := [("message", .debug (key ++ " is a reserved field. Skipping it."))]

def reservedEntry (key : String) : Event where
  metadata := formatterMetadata .debug 272
  fields := [("message", .debug (key ++ " is a reserved entry. Skipping it."))]

def Values.pairs (values : Values) : List (String × Value) :=
  values.entries.map fun entry => (entry.1, entry.2)

structure Serializing where
  entries : List (String × Value)
  extra : Values := ∅
  explicitEntriesSet : List String := []
  diagnostics : List Event := []

namespace Serializing

def serializeEntry (s : Serializing) (key : String) (value : Value) : Serializing :=
  { s with entries := s.entries ++ [(key, value)] }

def explicit (s : Serializing) (key : String) : Serializing :=
  { s with explicitEntriesSet := key :: s.explicitEntriesSet }

def log (s : Serializing) (event : Event) : Serializing :=
  { s with diagnostics := s.diagnostics ++ [event] }

def defaultField (s : Serializing) (key : String) (value : Value) : Serializing :=
  if !implicitKeys.contains key then s.serializeEntry key value else s.log (reservedField key)

variable (f : Features)

def customEntry (s : Serializing) (key : String) (value : Value) : Serializing :=
  if f.logCustomEntriesToExtra then { s with extra := s.extra.insert key value }
  else s.serializeEntry key value

def extraImplicitEntry (s : Serializing) (key : String) (value : Value) : Serializing :=
  if f.logExtraImplicitFields then s.serializeEntry key value else s

def eventEntry (s : Serializing) (key : String) (value : Value) : Serializing :=
  if isExtraImplicit key then (s.extraImplicitEntry f key value).explicit key
  else if isExtra key then (s.customEntry f key value).explicit key
  else s

def spanEntry (s : Serializing) (key : String) (value : Value) : Serializing :=
  if isExtraImplicit key && !s.explicitEntriesSet.contains key then s.extraImplicitEntry f key value
  else if isExtra key && !s.explicitEntriesSet.contains key then s.customEntry f key value
  else s.log (reservedEntry key)

/- The three loops. -/

def defaultEntries (s : Serializing) (defaults : Values) : Serializing :=
  defaults.pairs.foldl (fun s entry => s.defaultField entry.1 entry.2) s

def eventEntries (s : Serializing) : Option Storage → Serializing
  | some storage => storage.values.pairs.foldl (fun s entry => s.eventEntry f entry.1 entry.2) s
  | none => s

def spanEntries (s : Serializing) (span : Option SpanRef) : Serializing :=
  match span.bind (·.storage) with
  | some visitor => visitor.values.pairs.foldl (fun s entry => s.spanEntry f entry.1 entry.2) s
  | none => s

end Serializing

def optional {α : Type} (write : α → Value) : Option α → Value
  | some x => write x
  | none => .null

namespace FormattingLayer

variable (layer : FormattingLayer) (f : Features)

/-- Without a time where it cannot be formatted. -/
def implicitEntries (metadata : Metadata) (name message : String) (time : Option String) :
    List (String × Value) :=
  [("message", .string message), ("hostname", .string layer.hostname),
    ("pid", .number (toString layer.pid)), ("env", .string layer.env)] ++
  (if f.vergen then [("version", .string layer.version), ("build", .string layer.build)] else []) ++
  [("level", .string metadata.level.display), ("target", .string metadata.target),
    ("service", .string layer.service),
    ("line", optional (fun line => .number (toString line)) metadata.line),
    ("file", optional .string metadata.file), ("fn", .string name),
    ("full_name", .string (metadata.target ++ "::" ++ name))] ++
  match time with
  | some time => [("time", .string time)]
  | none => []

def commonSerialize (metadata : Metadata) (span : Option SpanRef) (storage : Option Storage)
    (name message : String) (time : Option String) : Serializing :=
  let s : Serializing := { entries := layer.implicitEntries f metadata name message time }
  let s := ((s.defaultEntries layer.defaultFields).eventEntries f storage).spanEntries f span
  if f.logCustomEntriesToExtra then s.serializeEntry "extra" (.object s.extra.pairs) else s

variable (toUppercase : String → String)

def spanMessage (span : SpanRef) (ty : RecordType) : String :=
  "[" ++ toUppercase span.metadata.name ++ " - " ++ ty.display ++ "]"

def eventMessage (span : Option SpanRef) (event : Event) (storage : Storage) : String :=
  let message := match storage.get "message" with
    | some (.string s) => s
    | _ => event.metadata.target
  match span with
  | some span => spanMessage toUppercase span .event ++ " " ++ message
  | none => message

def eventSerialize (span : Option SpanRef) (event : Event) (time : Option String) : Serializing :=
  let storage := Storage.record event.fields {}
  let name := match span with
    | some span => span.metadata.name
    | none => "?"
  let message := eventMessage toUppercase span event storage
  layer.commonSerialize f event.metadata span (some storage) name message time

end FormattingLayer

end Mercado.Logger
