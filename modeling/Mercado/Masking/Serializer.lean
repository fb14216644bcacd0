import Mathlib.Algebra.Group.Nat.Defs
import Mercado.Serde.Json

/-! `masked_serialize`, and the serializers of serde and serde_json that a value is handed to
on the way. What fails is none: the texts of the errors are left out. -/
namespace Mercado.Masking
open SerdeJson (Value insertEntry)

inductive Scalar where
  | bool (b : Bool)
  | i8 (n : Int8)
  | i16 (n : Int16)
  | i32 (n : Int32)
  | i64 (n : Int64)
  | i128 (n : Int)
  | u8 (n : UInt8)
  | u16 (n : UInt16)
  | u32 (n : UInt32)
  | u64 (n : UInt64)
  | u128 (n : Nat)
  | f32 (x : Float32)
  | f64 (x : Float)
  | char (c : Char)
  | str (s : String)
  | bytes (bs : List UInt8)
  | display (s : String)
  | unit
  | unitStruct
  | none

mutual

/-- What `Serialize` says of a value. Tuples and tuple structs are sequences; a struct is a map
with its names as keys. `tagged` is the content of a newtype variant of an internally tagged
enum, and `erased` a trait object. A secret prints as its mask. -/
inductive Node where
  | scalar (s : Scalar)
  | unitVariant (variant : String)
  | newtypeStruct (v : Node)
  | some (v : Node)
  | newtypeVariant (variant : String) (v : Node)
  | seq (items : List Node)
  | tupleVariant (variant : String) (items : List Node)
  | map (entries : List Entry)
  | structVariant (variant : String) (fields : List (String × Node))
  | tagged (tag variant : String) (v : Node)
  | erased (v : Node)
  | secret (mask : String) (inner : Node)

inductive Entry where
  | entry (key v : Node)
  | flatten (v : Node)

end

/- The types of the serializers, as far as their names tell them apart. -/

inductive Target where
  | pii | json | content
  | erased (t : Target)
  deriving DecidableEq

inductive MapType where
  | serializeMap (t : Target)
  | flatMap (m : MapType)
  deriving DecidableEq

inductive SerializerType where
  | target (t : Target)
  | mapKey
  | flatMap (m : MapType)
  | tagged (m : MapType)
  deriving DecidableEq

def MapType.target : MapType → Target
  | .serializeMap t => t
  | .flatMap m => m.target

def isRecognised (s : SerializerType) : Bool :=
  s = .target .pii || s = .flatMap (.serializeMap .pii)

/-- A secret is its mask to `PIISerializer`, nothing to a map that is flattened into the map of
`PIISerializer`, and what it holds to any other serializer. -/
def piiSerialize {α : Type} (s : SerializerType) (mask emptyMap inner : α) : α :=
  if s = .target .pii then mask
  else if s = .flatMap (.serializeMap .pii) then emptyMap
  else inner

def object (entries : List (String × Value)) : Value :=
  .object (entries.foldl (fun map e => insertEntry e.1 e.2 map) [])

/- `value::Serializer` of serde_json. -/

def fromF64 (x : Float) : Value := if x.isFinite then .number (.float x.toBits) else .null

def fromF32 (x : Float32) : Value :=
  if x.isFinite then .number (.float x.toFloat.toBits) else .null

def jsonScalar : Scalar → Option Value
  | .bool b => some (.bool b)
  | .i8 n => some (.number (.int n.toInt))
  | .i16 n => some (.number (.int n.toInt))
  | .i32 n => some (.number (.int n.toInt))
  | .i64 n => some (.number (.int n.toInt))
  | .u8 n => some (.number (.int n.toNat))
  | .u16 n => some (.number (.int n.toNat))
  | .u32 n => some (.number (.int n.toNat))
  | .u64 n => some (.number (.int n.toNat))
  | .i128 n => if -2 ^ 63 ≤ n ∧ n < 2 ^ 64 then some (.number (.int n)) else none
  | .u128 n => if n < 2 ^ 64 then some (.number (.int n)) else none
  | .f32 x => some (fromF32 x)
  | .f64 x => some (fromF64 x)
  | .char c => some (.string (String.singleton c))
  | .str s | .display s => some (.string s)
  | .bytes bs => some (.array (bs.map fun b => .number (.int b.toNat)))
  | .unit | .unitStruct | .none => some .null

namespace PIISerializer

def serializeI64 (n : Int64) : Option Value := jsonScalar (.i64 n)

def serializeU64 (n : UInt64) : Option Value := some (.number (.int n.toNat))

def serializeUnit : Option Value := some .null

def scalar : Scalar → Option Value
  | .bool b => jsonScalar (.bool b)
  | .i8 n => serializeI64 n.toInt64
  | .i16 n => serializeI64 n.toInt64
  | .i32 n => serializeI64 n.toInt64
  | .i64 n => serializeI64 n
  | .i128 n => jsonScalar (.i128 n)
  | .u8 n => serializeU64 n.toUInt64
  | .u16 n => serializeU64 n.toUInt64
  | .u32 n => serializeU64 n.toUInt64
  | .u64 n => serializeU64 n
  | .u128 n => jsonScalar (.u128 n)
  | .f32 x => some (fromF32 x)
  | .f64 x => some (fromF64 x)
  | .char c => some (.string ("".push c))
  | .str s => some (.string s)
  | .bytes bs => some (.array (bs.map fun b => .number (.int b.toNat)))
  | .display s => jsonScalar (.display s)
  | .unit => serializeUnit
  | .unitStruct => serializeUnit
  | .none => serializeUnit

end PIISerializer

/-- `Content` has no integers of 128 bits. -/
def contentScalar : Scalar → Option Value
  | .i128 _ | .u128 _ => none
  | s => jsonScalar s

def scalar : Target → Scalar → Option Value
  | .pii, s => PIISerializer.scalar s
  | .json, s => jsonScalar s
  | .content, s => contentScalar s
  | .erased t, s => scalar t s

def Target.collects : Target → Bool
  | .pii | .json => false
  | .content => true
  | .erased t => t.collects

theorem piiScalar_eq (s : Scalar) : PIISerializer.scalar s = jsonScalar s := by
  cases s <;> simp [PIISerializer.scalar, PIISerializer.serializeI64,
    PIISerializer.serializeU64, PIISerializer.serializeUnit, jsonScalar]

theorem scalar_eq (t : Target) (s : Scalar) :
    scalar t s = if t.collects then contentScalar s else jsonScalar s := by
  induction t with
  | pii => exact piiScalar_eq s
  | json => rfl
  | content => rfl
  | erased t ih => exact ih

theorem scalar_same {t t' : Target} (same : t.collects = t'.collects) (s : Scalar) :
    scalar t s = scalar t' s := by
  rw [scalar_eq, scalar_eq, same]

structure Ryu where
  format32 : Float32 → String
  format64 : Float → String

section Serializers

variable (ryu : Ryu)

def keyScalar : Scalar → Option String
  | .bool b => some (if b then "true" else "false")
  | .i8 n => some (toString n)
  | .i16 n => some (toString n)
  | .i32 n => some (toString n)
  | .i64 n => some (toString n)
  | .u8 n => some (toString n)
  | .u16 n => some (toString n)
  | .u32 n => some (toString n)
  | .u64 n => some (toString n)
  | .f32 x => if x.isFinite then some (ryu.format32 x) else none
  | .f64 x => if x.isFinite then some (ryu.format64 x) else none
  | .char c => some (String.singleton c)
  | .str s | .display s => some s
  | .i128 _ | .u128 _ | .bytes _ | .unit | .unitStruct | .none => none

def key : Node → Option String
  | .scalar s => keyScalar ryu s
  | .unitVariant variant => some variant
  | .newtypeStruct v => key v
  | .erased v => key v
  | .secret mask inner => piiSerialize .mapKey (some mask) none (key inner)
  | .some _ | .newtypeVariant _ _ | .seq _ | .tupleVariant _ _ | .map _ | .structVariant _ _
  | .tagged _ _ _ => none

mutual

/-- `PIISerializer` and `value::Serializer`. What is collected as `Content` is written later,
as it is; a trait object hides the serializer. -/
def value (t : Target) : Node → Option Value
  | .scalar s => scalar t s
  | .unitVariant variant => some (.string variant)
  | .newtypeStruct v => value t v
  | .some v => value t v
  | .newtypeVariant variant v => (value t v).map fun j => .object [(variant, j)]
  | .seq items => (values t items).map .array
  | .tupleVariant variant items =>
    (values t items).map fun js => .object [(variant, .array js)]
  | .map es => (entries (.serializeMap t) es).map object
  | .structVariant variant fs => (fields t fs).map fun map => .object [(variant, object map)]
  | .tagged tag variant v =>
    (taggedEntries (.serializeMap t) v).map fun map => object ((tag, .string variant) :: map)
  | .erased v => value (.erased t) v
  | .secret mask inner =>
    piiSerialize (.target t) (some (.string mask)) (some (.object [])) (value t inner)

def values (t : Target) : List Node → Option (List Value)
  | [] => some []
  | v :: rest => do return (← value t v) :: (← values t rest)

def fields (t : Target) : List (String × Node) → Option (List (String × Value))
  | [] => some []
  | (name, v) :: rest => do return (name, ← value t v) :: (← fields t rest)

def entries (m : MapType) : List Entry → Option (List (String × Value))
  | [] => some []
  | .entry k v :: rest => do
    return (← key ryu k, ← value m.target v) :: (← entries m rest)
  | .flatten v :: rest => do return (← flatEntries m v) ++ (← entries m rest)

/-- `FlatMapSerializer`: the entries that a value adds to the map it is flattened into. -/
def flatEntries (m : MapType) : Node → Option (List (String × Value))
  | .scalar .none | .scalar .unit => some []
  | .scalar _ | .unitVariant _ | .seq _ => none
  | .newtypeStruct v => flatEntries m v
  | .some v => flatEntries m v
  | .newtypeVariant variant v => (value m.target v).map fun j => [(variant, j)]
  | .tupleVariant variant items =>
    (values .content items).map fun js => [(variant, .array js)]
  | .map es => entries (.flatMap m) es
  | .structVariant variant fs => (fields .content fs).map fun map => [(variant, object map)]
  | .tagged tag variant v =>
    (taggedEntries (.flatMap m) v).map fun map => (tag, .string variant) :: map
  | .erased v => flatEntries (.serializeMap (.erased m.target)) v
  | .secret _ inner => piiSerialize (.flatMap m) none (some []) (flatEntries m inner)

def taggedEntries (m : MapType) : Node → Option (List (String × Value))
  | .scalar .unit | .scalar .unitStruct => some []
  | .scalar _ | .some _ | .seq _ => none
  | .unitVariant variant => some [(variant, .null)]
  | .newtypeStruct v => taggedEntries m v
  | .newtypeVariant variant v => (value m.target v).map fun j => [(variant, j)]
  | .tupleVariant variant items =>
    (values .content items).map fun js => [(variant, .array js)]
  | .map es => entries m es
  | .structVariant variant fs => (fields .content fs).map fun map => [(variant, object map)]
  | .tagged tag variant v =>
    (taggedEntries m v).map fun map => (tag, .string variant) :: map
  | .erased v => taggedEntries (.serializeMap (.erased m.target)) v
  | .secret _ inner => piiSerialize (.tagged m) none (some []) (taggedEntries m inner)

end

def maskedSerialize (v : Node) : Option Value := value ryu .pii v

def toValue (v : Node) : Option Value := value ryu .json v

end Serializers

end Mercado.Masking
