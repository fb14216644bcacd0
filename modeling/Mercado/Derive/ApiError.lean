import Mathlib.Data.List.Nodup
import Mathlib.Tactic.Tauto
import Mercado.Configs.Validation
import Mercado.Derive.Helpers
import Mercado.Text.Template

/-! `ApiError`, the macro that makes errors out of the variants of an enum. A variant has a
message, a format string over its fields; the fields that are not in the message are serialized
next to it. -/
namespace Mercado.Derive
open Results Text

variable {TypePath : Type}

/- The attributes. -/

inductive EnumMeta (TypePath : Type) where
  | errorTypeEnum (value : TypePath)

inductive VariantMeta (TypePath : Type) where
  | errorType (value : TypePath)
  | code (value : String)
  | message (value : String)
  | ignore (value : String)

def parseKeyword (keyword : String) : List Token → Option (Except SynError (List Token))
  | .ident ident :: tokens => if ident = .of keyword then some (parseEq tokens) else none
  | _ => none

def EnumMeta.parse [Parse TypePath] (tokens : List Token) :
    Except SynError (EnumMeta TypePath × List Token) :=
  match parseKeyword "error_type_enum" tokens with
  | some rest => do
    let (value, rest) ← Parse.parse (← rest)
    return (.errorTypeEnum value, rest)
  | none => .error (.expected "`error_type_enum`")

instance [Parse TypePath] : Parse (EnumMeta TypePath) := ⟨EnumMeta.parse⟩

def VariantMeta.parse [Parse TypePath] (tokens : List Token) :
    Except SynError (VariantMeta TypePath × List Token) :=
  match parseKeyword "error_type" tokens with
  | some rest => do
    let (value, rest) ← Parse.parse (← rest)
    return (.errorType value, rest)
  | none =>
  match parseKeyword "code" tokens with
  | some rest => do
    let (value, rest) ← parseLitStr (← rest)
    return (.code value, rest)
  | none =>
  match parseKeyword "message" tokens with
  | some rest => do
    let (value, rest) ← parseLitStr (← rest)
    return (.message value, rest)
  | none =>
  match parseKeyword "ignore" tokens with
  | some rest => do
    let (value, rest) ← parseLitStr (← rest)
    return (.ignore value, rest)
  | none => .error (.expected "one of: `error_type`, `code`, `message`, `ignore`")

instance [Parse TypePath] : Parse (VariantMeta TypePath) := ⟨VariantMeta.parse⟩

def once {α : Type} (attr : String) (first : Option α) (value : α) : Except SynError (Option α) :=
  match first with
  | some _ => .error (occurrenceError attr)
  | none => .ok (some value)

def getTypeProperties [Parse TypePath] (ast : DeriveInput) : Except SynError TypePath := do
  let metas ← getMetadataInner (T := EnumMeta TypePath) "error" ast.attrs
  let errorTypeEnum ← metas.foldlM
    (fun output (.errorTypeEnum value) => once "error_type_enum" output value) none
  match errorTypeEnum with
  | some value => return value
  | none => throw (.messages ["error(error_type_enum) attribute not found"])

structure ErrorVariantProperties (TypePath : Type) where
  errorType : Option TypePath := none
  code : Option String := none
  message : Option String := none
  ignore : List String := []

/-- The names in `ignore`, without the spaces. -/
def ignoredNames (value : String) : List String :=
  ((value.toList.filter (· ≠ ' ')).splitOn ',').map String.ofList

def addMeta : ErrorVariantProperties TypePath × Bool → VariantMeta TypePath →
    Except SynError (ErrorVariantProperties TypePath × Bool)
  | (output, ignoreKeyword), .errorType value => do
    return ({ output with errorType := ← once "error_type" output.errorType value }, ignoreKeyword)
  | (output, ignoreKeyword), .code value => do
    return ({ output with code := ← once "code" output.code value }, ignoreKeyword)
  | (output, ignoreKeyword), .message value => do
    return ({ output with message := ← once "message" output.message value }, ignoreKeyword)
  | (output, ignoreKeyword), .ignore value =>
    if ignoreKeyword then .error (occurrenceError "ignore")
    else .ok ({ output with ignore := ignoredNames value }, true)

def getVariantProperties [Parse TypePath] (variant : Variant) :
    Except SynError (ErrorVariantProperties TypePath) := do
  let (output, _) ← (← getMetadataInner "error" variant.attrs).foldlM addMeta ({}, false)
  return output

def missingAttributeError (attr : String) : SynError := .messages [attr ++ " must be specified"]

/-- What the generators need, which take these attributes as given. -/
structure CheckedProperties (TypePath : Type) where
  errorType : TypePath
  code : String
  message : String
  ignore : List String

def checkMissingAttributes (properties : ErrorVariantProperties TypePath) :
    Except SynError (CheckedProperties TypePath) :=
  match properties.errorType, properties.code, properties.message with
  | none, _, _ => .error (missingAttributeError "error_type")
  | some _, none, _ => .error (missingAttributeError "code")
  | some _, some _, none => .error (missingAttributeError "message")
  | some errorType, some code, some message => .ok ⟨errorType, code, message, properties.ignore⟩

/- The serializer. -/

def getUnusedFields (fields : Fields) (message : String) (ignore : List String) : List Field :=
  let fields := match fields with
    | .unit => []
    | .unnamed _ => []
    | .named fields => fields.named
  fields.filter fun field =>
    let fieldName := field.ident.display
    !contains message.toList fieldName.toList && !ignore.contains fieldName

inductive Params where
  | unit
  | rest
  | fields (idents : List Ident)

def Fields.params : Fields → Params
  | .unit => .unit
  | .unnamed _ => .rest
  | .named fields => .fields (fields.named.map Field.ident)

structure ExtraField where
  vis : String
  ident : Ident
  ty : String

/-- `struct ErrorResponse`: the type of the field that is renamed to `type`, and the fields after
`code` and `message`. -/
structure ErrorResponse (TypePath : Type) where
  errorType : TypePath
  extraFields : List ExtraField
  generic : Bool

/-- The value of the struct. The message is formatted; the extra fields are those of the
variant. -/
structure Response (TypePath : Type) where
  errorType : TypePath
  code : String
  message : String
  extraFields : List Ident

structure SerializeArm (TypePath : Type) where
  ident : Ident
  params : Params
  definition : ErrorResponse TypePath
  response : Response TypePath

def serializeArm (errorTypeEnum : TypePath) (variant : Variant)
    (properties : CheckedProperties TypePath) : SerializeArm TypePath :=
  let msgUnusedFields := getUnusedFields variant.fields properties.message properties.ignore
  { ident := variant.ident
    params := variant.fields.params
    definition :=
      { errorType := errorTypeEnum
        extraFields := msgUnusedFields.map fun field => ⟨field.vis, field.ident, field.ty⟩
        generic := !msgUnusedFields.isEmpty }
    response :=
      { errorType := properties.errorType
        code := properties.code
        message := properties.message
        extraFields := msgUnusedFields.map Field.ident } }

def implementSerialize (errorTypeEnum : TypePath)
    (variants : List (Variant × CheckedProperties TypePath)) : List (SerializeArm TypePath) :=
  variants.map fun (variant, properties) => serializeArm errorTypeEnum variant properties

def apiErrorDeriveInner [Parse TypePath] (ast : DeriveInput) :
    Except SynError (List (SerializeArm TypePath)) := do
  let .enum variants := ast.data | throw nonEnumError
  let errorTypeEnum ← getTypeProperties ast
  let properties ← variants.mapM fun variant => do
    return (variant, ← checkMissingAttributes (← getVariantProperties variant))
  return implementSerialize errorTypeEnum properties

theorem arm_of_derived [Parse TypePath] {ast : DeriveInput} {arms : List (SerializeArm TypePath)}
    (derived : apiErrorDeriveInner ast = .ok arms) {arm : SerializeArm TypePath}
    (mem : arm ∈ arms) :
    ∃ variants variant errorTypeEnum properties, ast.data = .enum variants ∧ variant ∈ variants ∧
      (getVariantProperties variant >>= checkMissingAttributes) = .ok properties ∧
        arm = serializeArm errorTypeEnum variant properties := by
  rw [apiErrorDeriveInner] at derived
  cases data : ast.data with
  | struct | union =>
    rw [data] at derived
    cases derived
  | enum variants =>
    rw [data] at derived
    obtain ⟨errorTypeEnum, _, derived⟩ := bind_ok.mp derived
    obtain ⟨pairs, read, made⟩ := bind_ok.mp derived
    cases made
    obtain ⟨⟨variant, properties⟩, pair, rfl⟩ := List.mem_map.mp mem
    obtain ⟨source, isMember, checked⟩ := exists_of_mapM_ok read pair
    obtain ⟨gathered, found, checked⟩ := bind_ok.mp checked
    obtain ⟨properties', complete, same⟩ := bind_ok.mp checked
    cases same
    exact ⟨variants, variant, errorTypeEnum, properties, rfl, isMember,
      bind_ok.mpr ⟨gathered, found, complete⟩, rfl⟩

def SerializeArm.extras (arm : SerializeArm TypePath) : List Ident :=
  arm.definition.extraFields.map ExtraField.ident

theorem extras_set (errorTypeEnum : TypePath) (variant : Variant)
    (properties : CheckedProperties TypePath) :
    (serializeArm errorTypeEnum variant properties).response.extraFields =
      (serializeArm errorTypeEnum variant properties).extras := by
  simp [SerializeArm.extras, serializeArm]

/- The message. An argument names a field by its identifier without `r#`. -/

def Interpolated (message : String) (field : Field) : Prop :=
  Template.Interpolates Configs.isWhitespace message field.ident.text

def ValidOver (fields : FieldsNamed) (message : String) : Prop :=
  ∃ names, Template.arguments Configs.isWhitespace message = some names ∧
    ∀ name ∈ names, ∃ field ∈ fields.named, field.ident.text.toList = name

def Occurs (message : String) (field : Field) : Prop :=
  field.ident.display.toList <:+: message.toList

/-- A field is serialized after the message unless the message has it or it is ignored. -/
def EmitsUnused (fields : FieldsNamed) (properties : CheckedProperties TypePath)
    (arm : SerializeArm TypePath) : Prop :=
  ∀ field ∈ fields.named, field.ident ∈ arm.extras ↔
    ¬ Interpolated properties.message field ∧ field.ident.display ∉ properties.ignore

def Recognized (fields : FieldsNamed) (properties : CheckedProperties TypePath) : Prop :=
  ∀ field ∈ fields.named, field.ident.display ∉ properties.ignore →
    (Occurs properties.message field → Interpolated properties.message field) ∧
      (field.ident.raw = true → Interpolated properties.message field →
        Occurs properties.message field)

theorem occurs_of_interpolated {message : String} {field : Field}
    (plain : field.ident.raw = false) (interpolated : Interpolated message field) :
    Occurs message field := by
  rw [Occurs, Ident.display, plain]
  exact interpolated.infix

theorem mem_getUnusedFields {fields : FieldsNamed} {message : String} {ignore : List String}
    {field : Field} : field ∈ getUnusedFields (.named fields) message ignore ↔
      field ∈ fields.named ∧ ¬ Occurs message field ∧ field.ident.display ∉ ignore := by
  rw [getUnusedFields, List.mem_filter, Bool.and_eq_true, Bool.not_eq_true', Bool.not_eq_true',
    ← Bool.not_eq_true, ← Bool.not_eq_true, contains_iff, List.contains_iff_mem]
  rfl

theorem mem_extras {errorTypeEnum : TypePath} {attrs : List Attribute} {ident : Ident}
    {fields : FieldsNamed} {properties : CheckedProperties TypePath} {field : Field}
    (member : field ∈ fields.named) :
    field.ident ∈ (serializeArm errorTypeEnum ⟨attrs, ident, .named fields⟩ properties).extras ↔
      ¬ Occurs properties.message field ∧ field.ident.display ∉ properties.ignore := by
  rw [← extras_set, serializeArm]
  simp only [List.mem_map, mem_getUnusedFields]
  constructor
  · rintro ⟨other, ⟨mem, unused⟩, same⟩
    obtain rfl := List.inj_on_of_nodup_map fields.distinct mem member same
    exact unused
  · exact fun unused => ⟨field, ⟨member, unused⟩, rfl⟩

/-- The fields after the message are right if and only if the name of a field is in the text
just when the field is. -/
theorem emitsUnused_iff (errorTypeEnum : TypePath) (attrs : List Attribute) (ident : Ident)
    (fields : FieldsNamed) (properties : CheckedProperties TypePath) :
    EmitsUnused fields properties
        (serializeArm errorTypeEnum ⟨attrs, ident, .named fields⟩ properties) ↔
      Recognized fields properties := by
  refine forall₂_congr fun field member => ?_
  rw [mem_extras member]
  have plain := @occurs_of_interpolated properties.message field
  cases raw : field.ident.raw with
  | false =>
    have occurs := plain raw
    tauto
  | true => tauto

def idField : Field := ⟨[], "", .of "id", "u64"⟩

def reasonField : Field := ⟨[], "", .of "reason", "String"⟩

def invalidFields : FieldsNamed := ⟨[idField, reasonField], by decide⟩

def invalidProperties : CheckedProperties String :=
  ⟨"ErrorType::InvalidRequest", "E001", "Invalid field: \x7breason\x7d", []⟩

theorem invalid_arguments :
    Template.arguments Configs.isWhitespace invalidProperties.message = some ["reason".toList] := by
  decide

/-- `id` is a part of `Invalid`. -/
theorem not_emitsUnused : ¬ ∀ (attrs : List Attribute) (ident : Ident) (fields : FieldsNamed)
    (properties : CheckedProperties String), ValidOver fields properties.message →
      EmitsUnused fields properties
        (serializeArm "ErrorType" ⟨attrs, ident, .named fields⟩ properties) := by
  intro emits
  have valid : ValidOver invalidFields invalidProperties.message := by
    refine ⟨_, invalid_arguments, ?_⟩
    intro name argument
    rw [List.mem_singleton.mp argument]
    exact ⟨reasonField, List.mem_cons_of_mem _ List.mem_cons_self, rfl⟩
  have emitted := emits [] (.of "InvalidField") invalidFields invalidProperties valid
    idField List.mem_cons_self
  have apart : ¬ Interpolated invalidProperties.message idField := by
    rintro ⟨names, scanned, argument⟩
    rw [invalid_arguments] at scanned
    cases scanned
    exact absurd argument (by decide)
  have occurs : Occurs invalidProperties.message idField := contains_iff.mp (by decide)
  have extra := emitted.mpr ⟨apart, List.not_mem_nil⟩
  exact ((mem_extras List.mem_cons_self).mp extra).1 occurs

end Mercado.Derive
