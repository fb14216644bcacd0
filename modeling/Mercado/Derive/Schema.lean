import Mathlib.Data.List.Nodup
import Mathlib.Tactic.Tauto
import Mercado.Derive.Helpers

/-! `PolymorphicSchema`, the macro that makes several schemas out of one struct. The attributes
of a field say in which schemas it is mandatory, with which type, and in which it is left out. -/
namespace Mercado.Derive

structure SchemaMeta where
  structName : Ident
  typeIdent : Ident
  deriving DecidableEq

def SchemaMeta.parse (tokens : List Token) : Except SynError (SchemaMeta × List Token) := do
  let (structName, tokens) ← parseIdent tokens
  let tokens ← parseEq tokens
  let (typeIdent, tokens) ← parseIdent tokens
  return (⟨structName, typeIdent⟩, tokens)

def SchemaMeta.tokens (schema : SchemaMeta) : List Token :=
  [.ident schema.structName, .eq, .ident schema.typeIdent]

theorem SchemaMeta.parse_iff (input : List Token) (value : SchemaMeta) (rest : List Token) :
    SchemaMeta.parse input = .ok (value, rest) ↔ input = value.tokens ++ rest := by
  constructor
  · intro parsed
    match input with
    | .ident name :: .eq :: .ident type :: tokens =>
      cases parsed
      rfl
    | [] | [.ident _] | [.ident _, .eq] => cases parsed
    | .literal _ :: _ | .eq :: _ | .comma :: _ | .other _ :: _ => cases parsed
    | .ident _ :: .ident _ :: _ | .ident _ :: .literal _ :: _ | .ident _ :: .comma :: _
    | .ident _ :: .other _ :: _ => cases parsed
    | .ident _ :: .eq :: .literal _ :: _ | .ident _ :: .eq :: .eq :: _
    | .ident _ :: .eq :: .comma :: _ | .ident _ :: .eq :: .other _ :: _ => cases parsed
  · rintro rfl
    rfl

instance : LawfulParse SchemaMeta where
  parse := SchemaMeta.parse
  tokens := SchemaMeta.tokens
  tokens_ne_nil _ := List.cons_ne_nil _ _
  parse_iff := SchemaMeta.parse_iff

def getInnerPathIdent (attr : Attribute) : Except SynError (List Ident) :=
  attr.parseArgsTerminated

def entryPush {K V : Type} [DecidableEq K] (key : K) : List (K × List V) → V → List (K × List V)
  | [], value => [(key, [value])]
  | (other, values) :: map, value =>
    if other = key then (other, values ++ [value]) :: map
    else (other, values) :: entryPush key map value

/-- What is collected of the fields. A later entry of `requiredFields` stands in front. -/
structure Collected where
  requiredFields : List ((Ident × Ident) × Ident) := []
  hideFields : List (Ident × Ident) := []
  allFields : List (Field × List Attribute) := []

def Collected.requiredField (c : Collected) (field schema : Ident) : Option Ident :=
  (c.requiredFields.find? fun entry => entry.1 = (field, schema)).map Prod.snd

def Field.withoutAttributes (field : Field) : Field := { field with attrs := [] }

def Field.shown (field : Field) : List Attribute :=
  (field.attrs.filter fun attr => attr.path ≠ "mandatory_in").filter
    fun attr => attr.path = "schema" || attr.path = "doc"

def Field.mandatoryIn (field : Field) : Except SynError (List SchemaMeta) :=
  getMetadataInner "mandatory_in"
    (field.attrs.filter fun attr => attr.path = "mandatory_in")

/-- `try_for_each`, which stops at the first error; the error is dropped. -/
def readHidden : List Attribute → List Ident
  | [] => []
  | attr :: attributes =>
    match getInnerPathIdent attr with
    | .ok schemas => schemas ++ readHidden attributes
    | .error _ => []

def Field.hidden (field : Field) : List Ident :=
  readHidden (field.attrs.filter fun attr => attr.path = "remove_in")

def collect (c : Collected) (field : Field) : Except SynError Collected := do
  let allFields := field.shown.foldl (entryPush field.withoutAttributes) c.allFields
  let requiredFields := match (← field.mandatoryIn).head? with
    | some first => ((field.ident, first.structName), first.typeIdent) :: c.requiredFields
    | none => c.requiredFields
  let hideFields := c.hideFields ++ field.hidden.map fun schema => (field.ident, schema)
  return { requiredFields, hideFields, allFields }

def valueTypeAttribute (type : Ident) : Attribute :=
  ⟨"schema", .list [.ident (.of "value_type"), .eq, .ident type]⟩

def finalAttributes (required : Option Ident) (attributes : List Attribute) : List Attribute :=
  match required with
  | some type =>
    (attributes.filter fun attr => attr.path ≠ "schema") ++ [valueTypeAttribute type]
  | none => attributes

def schemaField (c : Collected) (schema : Ident) (field : Field) (attributes : List Attribute) :
    Option Field :=
  if c.hideFields.contains (field.ident, schema) then none
  else some { field with
    attrs := finalAttributes (c.requiredField field.ident schema) attributes }

structure SchemaStruct where
  name : Ident
  fields : List Field

def schemaStruct (c : Collected) (schema : Ident) : SchemaStruct where
  name := schema
  fields := c.allFields.filterMap fun (field, attributes) => schemaField c schema field attributes

def polymorphicMacroDeriveInner (input : DeriveInput) : Except SynError (List SchemaStruct) := do
  let schemasToCreate ← getMetadataInner "generate_schemas" input.attrs
  let fields ← getStructFields input.data
  let c ← fields.named.foldlM collect {}
  return schemasToCreate.map (schemaStruct c)

/- What the loop collects. -/

def newEntry {K V : Type} (key : K) (values : List V) : List (K × List V) :=
  if values.isEmpty then [] else [(key, values)]

section EntryPush

variable {K V : Type} [DecidableEq K] {key : K}

theorem entryPush_last {map : List (K × List V)} (absent : key ∉ map.map Prod.fst)
    (values : List V) (value : V) :
    entryPush key (map ++ [(key, values)]) value = map ++ [(key, values ++ [value])] := by
  induction map with
  | nil => exact if_pos rfl
  | cons entry map ih =>
    rw [List.map_cons, List.mem_cons, not_or] at absent
    rw [List.cons_append, entryPush, if_neg (Ne.symm absent.1), ih absent.2]
    rfl

theorem entryPush_absent {map : List (K × List V)} (absent : key ∉ map.map Prod.fst)
    (value : V) : entryPush key map value = map ++ [(key, [value])] := by
  induction map with
  | nil => rfl
  | cons entry map ih =>
    rw [List.map_cons, List.mem_cons, not_or] at absent
    rw [entryPush, if_neg (Ne.symm absent.1), ih absent.2]
    rfl

theorem foldl_entryPush_last {map : List (K × List V)} (absent : key ∉ map.map Prod.fst)
    (values front : List V) :
    values.foldl (entryPush key) (map ++ [(key, front)]) = map ++ [(key, front ++ values)] := by
  induction values generalizing front with
  | nil => rw [List.foldl_nil, List.append_nil]
  | cons value values ih => rw [List.foldl_cons, entryPush_last absent, ih, List.append_assoc]; rfl

theorem foldl_entryPush {map : List (K × List V)} (absent : key ∉ map.map Prod.fst)
    (values : List V) : values.foldl (entryPush key) map = map ++ newEntry key values := by
  cases values with
  | nil => exact (List.append_nil map).symm
  | cons value values =>
    rw [List.foldl_cons, entryPush_absent absent, foldl_entryPush_last absent]
    rfl

end EntryPush

def Field.first (field : Field) : Option SchemaMeta :=
  match field.mandatoryIn with
  | .ok schemas => schemas.head?
  | .error _ => none

def Field.entry (field : Field) : List (Field × List Attribute) :=
  newEntry field.withoutAttributes field.shown

/-- After the fields: each of them has its entry, its hidden schemas and its first mandatory
one. -/
structure CollectedFrom (c : Collected) (fields : List Field) (c' : Collected) : Prop where
  allFields : c'.allFields = c.allFields ++ fields.flatMap Field.entry
  hideFields : ∀ ident schema, (ident, schema) ∈ c'.hideFields ↔
    (ident, schema) ∈ c.hideFields ∨ ∃ field ∈ fields, field.ident = ident ∧ schema ∈ field.hidden
  requiredFields : ∀ ident schema type, ((ident, schema), type) ∈ c'.requiredFields ↔
    ((ident, schema), type) ∈ c.requiredFields ∨
      ∃ field ∈ fields, field.ident = ident ∧ field.first = some ⟨schema, type⟩

theorem collect_ok {c : Collected} {field : Field} {schemas : List SchemaMeta}
    (read : field.mandatoryIn = .ok schemas)
    (absent : field.ident ∉ c.allFields.map fun entry => entry.1.ident) :
    ∃ c', collect c field = .ok c' ∧ CollectedFrom c [field] c' := by
  have key : field.withoutAttributes ∉ c.allFields.map Prod.fst := by
    intro mem
    obtain ⟨entry, mem, same⟩ := List.mem_map.mp mem
    have ident : entry.1.ident = field.ident := by
      rw [same]
      rfl
    exact absent (List.mem_map.mpr ⟨entry, mem, ident⟩)
  have first : field.first = schemas.head? := by rw [Field.first, read]
  rw [collect, read, foldl_entryPush key]
  refine ⟨_, rfl, ?_, ?_, ?_⟩
  · rw [List.flatMap_singleton, Field.entry]
  · intro ident schema
    simp only [List.mem_append, List.mem_map, Prod.mk.injEq, List.mem_singleton, exists_eq_left]
    apply or_congr_right
    constructor
    · rintro ⟨hidden, mem, same, rfl⟩
      exact ⟨same, mem⟩
    · rintro ⟨same, mem⟩
      exact ⟨schema, mem, same, rfl⟩
  · intro ident schema type
    simp only [List.mem_singleton, exists_eq_left, first]
    cases schemas.head? with
    | none => simp
    | some required =>
      rw [List.mem_cons, or_comm]
      apply or_congr_right
      cases required
      simp only [Prod.mk.injEq, Option.some.injEq, SchemaMeta.mk.injEq]
      tauto

theorem entry_ident {field : Field} {entry : Field × List Attribute}
    (mem : entry ∈ field.entry) : entry.1.ident = field.ident := by
  rw [Field.entry, newEntry] at mem
  split at mem
  · cases mem
  · rw [List.mem_singleton.mp mem]
    rfl

theorem CollectedFrom.cons {c c₁ c₂ : Collected} {field : Field} {fields : List Field}
    (head : CollectedFrom c [field] c₁) (rest : CollectedFrom c₁ fields c₂) :
    CollectedFrom c (field :: fields) c₂ := by
  constructor
  · rw [rest.allFields, head.allFields, List.flatMap_singleton, List.append_assoc,
      ← List.flatMap_cons]
  · intro ident schema
    rw [rest.hideFields, head.hideFields, List.exists_mem_cons_iff, or_assoc]
    simp
  · intro ident schema type
    rw [rest.requiredFields, head.requiredFields, List.exists_mem_cons_iff, or_assoc]
    simp

theorem collect_all {fields : List Field} {c : Collected}
    (read : ∀ field ∈ fields, ∃ schemas, field.mandatoryIn = .ok schemas)
    (distinct : (fields.map Field.ident).Nodup)
    (absent : ∀ field ∈ fields, field.ident ∉ c.allFields.map fun entry => entry.1.ident) :
    ∃ c', fields.foldlM collect c = .ok c' ∧ CollectedFrom c fields c' := by
  induction fields generalizing c with
  | nil =>
    refine ⟨c, rfl, ?_, ?_, ?_⟩
    · exact (List.append_nil _).symm
    · simp
    · simp
  | cons field fields ih =>
    rw [List.forall_mem_cons] at read absent
    rw [List.map_cons, List.nodup_cons] at distinct
    obtain ⟨schemas, first⟩ := read.1
    obtain ⟨c₁, collected, head⟩ := collect_ok first absent.1
    have later : ∀ other ∈ fields, other.ident ∉ c₁.allFields.map fun entry => entry.1.ident := by
      intro other mem
      rw [head.allFields, List.flatMap_singleton, List.map_append, List.mem_append, not_or]
      refine ⟨absent.2 other mem, ?_⟩
      intro again
      obtain ⟨entry, stored, same⟩ := List.mem_map.mp again
      rw [entry_ident stored] at same
      exact distinct.1 (same ▸ List.mem_map_of_mem mem)
    obtain ⟨c₂, run, rest⟩ := ih read.2 distinct.2 later
    refine ⟨c₂, ?_, head.cons rest⟩
    rw [List.foldlM_cons, collected]
    exact run

theorem collect_error {fields : List Field} {field : Field} (member : field ∈ fields)
    (unread : ∀ schemas, field.mandatoryIn ≠ .ok schemas) (c : Collected) :
    ∃ error, fields.foldlM collect c = .error error := by
  induction fields generalizing c with
  | nil => cases member
  | cons other fields ih =>
    rw [List.foldlM_cons]
    cases collected : collect c other with
    | error error => exact ⟨error, rfl⟩
    | ok c₁ =>
      rcases List.mem_cons.mp member with rfl | later
      · rw [collect] at collected
        cases read : field.mandatoryIn with
        | ok schemas => exact absurd read (unread schemas)
        | error error =>
          rw [read] at collected
          cases collected
      · exact ih later c₁

def Collected.output (c : Collected) (schema : Ident) (field : Field) : Option Field :=
  if field.shown.isEmpty then none
  else schemaField c schema field.withoutAttributes field.shown

theorem filterMap_entry (c : Collected) (schema : Ident) (fields : List Field) :
    (fields.flatMap Field.entry).filterMap
        (fun (field, attributes) => schemaField c schema field attributes) =
      fields.filterMap (c.output schema) := by
  induction fields with
  | nil => rfl
  | cons field fields ih =>
    rw [List.flatMap_cons, List.filterMap_append, ih, Field.entry, newEntry]
    cases shown : field.shown.isEmpty with
    | true =>
      have none : c.output schema field = none := by rw [Collected.output, shown]; rfl
      rw [List.filterMap_cons_none none]
      rfl
    | false =>
      have out : c.output schema field =
          schemaField c schema field.withoutAttributes field.shown := by
        rw [Collected.output, shown]
        rfl
      cases made : schemaField c schema field.withoutAttributes field.shown with
      | none => rw [List.filterMap_cons_none (out.trans made)]; simp [made]
      | some f => rw [List.filterMap_cons_some (out.trans made)]; simp [made]

theorem requiredField_iff {fields : List Field} {c : Collected}
    (distinct : (fields.map Field.ident).Nodup) (collected : CollectedFrom {} fields c)
    {field : Field} (member : field ∈ fields) (schema type : Ident) :
    c.requiredField field.ident schema = some type ↔ field.first = some ⟨schema, type⟩ := by
  have stored : ∀ type, ((field.ident, schema), type) ∈ c.requiredFields ↔
      field.first = some ⟨schema, type⟩ := by
    intro type
    rw [collected.requiredFields]
    constructor
    · rintro (none | ⟨other, mem, same, first⟩)
      · cases none
      · rw [List.inj_on_of_nodup_map distinct mem member same] at first
        exact first
    · exact fun first => .inr ⟨field, member, rfl, first⟩
  rw [Collected.requiredField, ← stored, Option.map_eq_some_iff]
  constructor
  · rintro ⟨⟨key, other⟩, found, rfl⟩
    have chosen := List.find?_some found
    obtain rfl := of_decide_eq_true chosen
    exact List.mem_of_find?_eq_some found
  · intro mem
    cases found : c.requiredFields.find? fun entry => entry.1 = (field.ident, schema) with
    | none => exact absurd (List.find?_eq_none.mp found _ mem) (by simp)
    | some entry =>
      obtain ⟨key, other⟩ := entry
      have chosen := List.find?_some found
      obtain rfl := of_decide_eq_true chosen
      have again := (stored other).mp (List.mem_of_find?_eq_some found)
      have first := (stored type).mp mem
      rw [first] at again
      cases again
      exact ⟨_, rfl, rfl⟩

theorem hidden_iff {fields : List Field} {c : Collected}
    (distinct : (fields.map Field.ident).Nodup) (collected : CollectedFrom {} fields c)
    {field : Field} (member : field ∈ fields) (schema : Ident) :
    c.hideFields.contains (field.ident, schema) = true ↔ schema ∈ field.hidden := by
  rw [List.contains_iff_mem, collected.hideFields]
  constructor
  · rintro (none | ⟨other, mem, same, hidden⟩)
    · cases none
    · rw [List.inj_on_of_nodup_map distinct mem member same] at hidden
      exact hidden
  · exact fun hidden => .inr ⟨field, member, rfl, hidden⟩

end Mercado.Derive
