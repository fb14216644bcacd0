import Mercado.Derive.Schema

/-! What the documentation of `PolymorphicSchema` promises of the schemas, and the structs for
which the macro keeps it. -/
namespace Mercado.Derive

/- What the attributes say. -/

section Attributes

variable (field : Field)

def Field.MandatoryWellFormed : Prop :=
  ∀ attr ∈ field.attrs, attr.path = "mandatory_in" → ∃ schemas : List SchemaMeta, attr.Reads schemas

def Field.RemoveWellFormed : Prop :=
  ∀ attr ∈ field.attrs, attr.path = "remove_in" → ∃ schemas : List Ident, attr.Reads schemas

def Field.Mandatory (schema : SchemaMeta) : Prop :=
  ∃ attr ∈ field.attrs, attr.path = "mandatory_in" ∧
    ∃ schemas, attr.Reads schemas ∧ schema ∈ schemas

def Field.RemovedIn (schema : Ident) : Prop :=
  ∃ attr ∈ field.attrs, attr.path = "remove_in" ∧
    ∃ schemas, attr.Reads schemas ∧ schema ∈ schemas

def Field.FirstMandatory (schema : SchemaMeta) : Prop :=
  ∃ lists, List.Forall₂ Attribute.Reads
    (field.attrs.filter fun attr => attr.path = "mandatory_in") lists ∧
      lists.flatten.head? = some schema

end Attributes

def schemaAttributes (attrs : List Attribute) : List Attribute :=
  attrs.filter fun attr => attr.path = "schema"

def valueType : List Token → Option (List Token)
  | .ident ident :: .eq :: type => if ident = .of "value_type" then some type else none
  | _ => none

def valueTypes (attrs : List Attribute) : List (List Token) :=
  (schemaAttributes attrs).flatMap fun attr =>
    match attr.args with
    | .list tokens => (tokens.splitOn .comma).filterMap valueType
    | _ => []

/-- The field of a schema that a field of the struct becomes. -/
structure Carries (schema : Ident) (field out : Field) : Prop where
  vis : out.vis = field.vis
  ident : out.ident = field.ident
  ty : out.ty = field.ty
  mandatory : ∀ required, field.Mandatory required → required.structName = schema →
    valueTypes out.attrs = [[.ident required.typeIdent]]
  own : (∀ required, field.Mandatory required → required.structName ≠ schema) →
    schemaAttributes out.attrs = schemaAttributes field.attrs

/-- The fields of a schema are those of the struct, in order, that are not removed in it. -/
inductive FieldsOf (schema : Ident) : List Field → List Field → Prop
  | nil : FieldsOf schema [] []
  | kept {field out : Field} {fields outs : List Field} (present : ¬ field.RemovedIn schema)
      (carries : Carries schema field out) (rest : FieldsOf schema fields outs) :
      FieldsOf schema (field :: fields) (out :: outs)
  | removed {field : Field} {fields outs : List Field} (absent : field.RemovedIn schema)
      (rest : FieldsOf schema fields outs) : FieldsOf schema (field :: fields) outs

/-- The result is the schemas, or an error if an attribute is malformed. -/
structure Documented (schemas : List Ident) (fields : FieldsNamed)
    (result : Except SynError (List SchemaStruct)) : Prop where
  malformed : (∃ field ∈ fields.named, ¬ (field.MandatoryWellFormed ∧ field.RemoveWellFormed)) →
    ∃ error, result = .error error
  wellFormed : (∀ field ∈ fields.named, field.MandatoryWellFormed ∧ field.RemoveWellFormed) →
    ∃ structs, result = .ok structs ∧ List.Forall₂
      (fun schema out => out.name = schema ∧ FieldsOf schema fields.named out.fields)
      schemas structs

def Generates (attrs : List Attribute) (schemas : List Ident) : Prop :=
  ∃ lists, List.Forall₂ Attribute.Reads
    (attrs.filter fun attr => attr.path = "generate_schemas") lists ∧ schemas = lists.flatten

/- What the attributes say, against what is read. -/

variable {field : Field}

theorem mandatoryIn_eq (field : Field) :
    field.mandatoryIn = getMetadataInner "mandatory_in" field.attrs := by
  rw [Field.mandatoryIn, getMetadataInner, getMetadataInner, List.filter_filter]
  simp

theorem mandatoryIn_reads :
    (∃ schemas, field.mandatoryIn = .ok schemas) ↔ field.MandatoryWellFormed := by
  rw [mandatoryIn_eq]
  exact getMetadataInner_reads

theorem mandatory_iff {schemas : List SchemaMeta} (read : field.mandatoryIn = .ok schemas)
    (schema : SchemaMeta) : field.Mandatory schema ↔ schema ∈ schemas := by
  rw [mandatoryIn_eq] at read
  exact (mem_getMetadataInner read schema).symm

theorem firstMandatory_iff (schema : SchemaMeta) :
    field.FirstMandatory schema ↔ field.first = some schema := by
  constructor
  · rintro ⟨lists, reads, head⟩
    have read : field.mandatoryIn = .ok lists.flatten := by
      rw [mandatoryIn_eq]
      exact getMetadataInner_ok_iff.mpr ⟨lists, reads, rfl⟩
    rw [Field.first, read]
    exact head
  · intro first
    rw [Field.first] at first
    split at first
    · rename_i schemas read
      rw [mandatoryIn_eq] at read
      obtain ⟨lists, reads, rfl⟩ := getMetadataInner_ok_iff.mp read
      exact ⟨lists, reads, first⟩
    · cases first

theorem mem_readHidden {attrs : List Attribute}
    (reads : ∀ attr ∈ attrs, ∃ schemas : List Ident, attr.Reads schemas) (schema : Ident) :
    schema ∈ readHidden attrs ↔
      ∃ attr ∈ attrs, ∃ schemas, attr.Reads schemas ∧ schema ∈ schemas := by
  induction attrs with
  | nil =>
    apply iff_of_false List.not_mem_nil
    rintro ⟨attr, mem, _⟩
    exact List.not_mem_nil mem
  | cons attr attrs ih =>
    obtain ⟨⟨schemas, first⟩, rest⟩ := List.forall_mem_cons.mp reads
    have parsed : getInnerPathIdent attr = .ok schemas := parseArgsTerminated_ok_iff.mpr first
    rw [readHidden, parsed, List.mem_append, ih rest, List.exists_mem_cons_iff]
    apply or_congr_left
    constructor
    · exact fun mem => ⟨schemas, first, mem⟩
    · rintro ⟨others, other, mem⟩
      exact reads_unique other first ▸ mem

theorem mem_hidden (reads : field.RemoveWellFormed) (schema : Ident) :
    schema ∈ field.hidden ↔ field.RemovedIn schema := by
  rw [Field.hidden, mem_readHidden]
  · simp only [Field.RemovedIn, List.mem_filter, decide_eq_true_eq, and_assoc]
  · intro attr mem
    rw [List.mem_filter, decide_eq_true_eq] at mem
    exact reads attr mem.1 mem.2

/- The attributes of a field in a schema. -/

theorem schemaAttributes_shown (field : Field) :
    schemaAttributes field.shown = schemaAttributes field.attrs := by
  rw [schemaAttributes, Field.shown, List.filter_filter, List.filter_filter, schemaAttributes]
  apply List.filter_congr
  intro attr _
  by_cases schema : attr.path = "schema"
  · simp [schema]
  · simp [schema]

theorem valueTypes_shown (field : Field) : valueTypes field.shown = valueTypes field.attrs := by
  rw [valueTypes, schemaAttributes_shown, valueTypes]

theorem valueTypes_required (type : Ident) (attrs : List Attribute) :
    valueTypes (finalAttributes (some type) attrs) = [[.ident type]] := by
  have only : schemaAttributes (finalAttributes (some type) attrs) = [valueTypeAttribute type] := by
    rw [schemaAttributes, finalAttributes, List.filter_append, List.filter_filter]
    simp [valueTypeAttribute]
  rw [valueTypes, only]
  rfl

/-- The entry that is looked at is this one, or it is for another schema and the field has the
type already. -/
def Field.Required (field : Field) (schema : Ident) : Prop :=
  ∀ required, field.Mandatory required → required.structName = schema →
    field.FirstMandatory required ∨
      (∀ first, field.FirstMandatory first → first.structName ≠ schema) ∧
        valueTypes field.attrs = [[.ident required.typeIdent]]

theorem carries_required {schema type : Ident} (reads : field.MandatoryWellFormed)
    (first : field.first = some ⟨schema, type⟩) :
    Carries schema field { field.withoutAttributes with
        attrs := finalAttributes (some type) field.shown } ↔ field.Required schema := by
  obtain ⟨schemas, read⟩ := mandatoryIn_reads.mpr reads
  have listed : field.Mandatory ⟨schema, type⟩ := by
    rw [mandatory_iff read]
    rw [Field.first, read] at first
    exact List.mem_of_head? first
  constructor
  · intro carries required mandatory same
    have types := carries.mandatory required mandatory same
    rw [valueTypes_required] at types
    left
    rw [firstMandatory_iff, first]
    cases required
    cases same
    cases types
    rfl
  · intro required
    refine ⟨rfl, rfl, rfl, ?_, ?_⟩
    · intro other mandatory same
      rw [valueTypes_required]
      rcases required other mandatory same with head | ⟨none, _⟩
      · rw [firstMandatory_iff, first] at head
        cases head
        rfl
      · exact absurd rfl (none _ ((firstMandatory_iff _).mpr first))
    · intro unlisted
      exact absurd rfl (unlisted _ listed)

theorem carries_own {schema : Ident}
    (other : ∀ type, field.first ≠ some ⟨schema, type⟩) :
    Carries schema field { field.withoutAttributes with
        attrs := finalAttributes none field.shown } ↔ field.Required schema := by
  have apart : ∀ first, field.FirstMandatory first → first.structName ≠ schema := by
    rintro ⟨name, type⟩ first rfl
    exact other type ((firstMandatory_iff _).mp first)
  constructor
  · intro carries required mandatory same
    have types := carries.mandatory required mandatory same
    rw [finalAttributes, valueTypes_shown] at types
    exact .inr ⟨apart, types⟩
  · intro required
    refine ⟨rfl, rfl, rfl, ?_, ?_⟩
    · intro listed mandatory same
      rw [finalAttributes, valueTypes_shown]
      rcases required listed mandatory same with head | ⟨_, types⟩
      · exact absurd same (apart _ head)
      · exact types
    · intro _
      exact schemaAttributes_shown field

section Output

variable {fields : List Field} {c : Collected} (distinct : (fields.map Field.ident).Nodup)
  (collected : CollectedFrom {} fields c) (member : field ∈ fields)
include distinct collected member

theorem output_removed {schema : Ident} (reads : field.RemoveWellFormed)
    (removed : field.RemovedIn schema) : c.output schema field = none := by
  have hidden := (hidden_iff distinct collected member schema).mpr
    ((mem_hidden reads schema).mpr removed)
  rw [Collected.output, schemaField]
  split
  · rfl
  · exact if_pos hidden

theorem output_kept {schema : Ident} (reads : field.RemoveWellFormed)
    (kept : ¬ field.RemovedIn schema) (shown : field.shown ≠ []) :
    c.output schema field = some { field.withoutAttributes with
      attrs := finalAttributes (c.requiredField field.ident schema) field.shown } := by
  have present : ¬ c.hideFields.contains (field.ident, schema) = true := by
    rw [hidden_iff distinct collected member, mem_hidden reads]
    exact kept
  have some : ¬ field.shown.isEmpty = true := by
    rw [List.isEmpty_iff]
    exact shown
  rw [Collected.output, if_neg some, schemaField]
  exact if_neg present

/-- A field that is not removed is as documented if it has an attribute that is printed and the
types that are required of it. -/
theorem output_carries_iff {schema : Ident} (mandatoryReads : field.MandatoryWellFormed)
    (removeReads : field.RemoveWellFormed) (kept : ¬ field.RemovedIn schema) :
    (∃ out, c.output schema field = some out ∧ Carries schema field out) ↔
      field.shown ≠ [] ∧ field.Required schema := by
  by_cases shown : field.shown = []
  · apply iff_of_false
    · rintro ⟨out, made, _⟩
      rw [Collected.output, shown] at made
      cases made
    · exact fun supported => supported.1 shown
  · rw [output_kept distinct collected member removeReads kept shown, and_iff_right shown]
    simp only [Option.some.injEq, exists_eq_left']
    cases required : c.requiredField field.ident schema with
    | some type =>
      exact carries_required mandatoryReads
        ((requiredField_iff distinct collected member schema type).mp required)
    | none =>
      apply carries_own
      intro type first
      have found := (requiredField_iff distinct collected member schema type).mpr first
      rw [required] at found
      cases found

end Output

/- The fields of a schema. -/

theorem fieldsOf_ident {schema : Ident} {fields outs : List Field}
    (generated : FieldsOf schema fields outs) :
    ∀ out ∈ outs, out.ident ∈ fields.map Field.ident := by
  induction generated with
  | nil => simp
  | kept _ carries _ ih =>
    intro out mem
    rcases List.mem_cons.mp mem with rfl | later
    · rw [carries.ident]
      exact List.mem_cons_self
    · exact List.mem_cons_of_mem _ (ih out later)
  | removed _ _ ih => exact fun out mem => List.mem_cons_of_mem _ (ih out mem)

def Placed (schema : Ident) (output : Field → Option Field) (field : Field) : Prop :=
  (field.RemovedIn schema → output field = none) ∧
    (¬ field.RemovedIn schema → ∃ out, output field = some out ∧ Carries schema field out)

section Generated

variable {schema : Ident} {output : Field → Option Field}
  (keeps : ∀ field out, output field = some out → out.ident = field.ident)
include keeps

theorem filterMap_ident {fields : List Field} {out : Field}
    (mem : out ∈ fields.filterMap output) : out.ident ∈ fields.map Field.ident := by
  obtain ⟨field, isMember, made⟩ := List.mem_filterMap.mp mem
  rw [keeps field out made]
  exact List.mem_map_of_mem isMember

theorem fieldsOf_none_iff {fields : List Field} (fresh : field.ident ∉ fields.map Field.ident)
    (made : output field = none) :
    FieldsOf schema (field :: fields) (fields.filterMap output) ↔
      Placed schema output field ∧ FieldsOf schema fields (fields.filterMap output) := by
  constructor
  · intro generated
    generalize outs_eq : fields.filterMap output = outs at generated
    cases generated with
    | @kept _ out _ outs _ carries rest =>
      have mem := filterMap_ident keeps (outs_eq ▸ List.mem_cons_self : out ∈ _)
      rw [carries.ident] at mem
      exact absurd mem fresh
    | removed absent rest => exact ⟨⟨fun _ => made, fun kept => absurd absent kept⟩, rest⟩
  · rintro ⟨⟨_, placed⟩, rest⟩
    apply FieldsOf.removed _ rest
    by_contra kept
    obtain ⟨out, there, _⟩ := placed kept
    rw [made] at there
    cases there

theorem fieldsOf_some_iff {fields outs : List Field} {out : Field}
    (fresh : field.ident ∉ fields.map Field.ident) (made : output field = some out) :
    FieldsOf schema (field :: fields) (out :: outs) ↔
      Placed schema output field ∧ FieldsOf schema fields outs := by
  constructor
  · intro generated
    cases generated with
    | kept present carries rest =>
      exact ⟨⟨fun removed => absurd removed present, fun _ => ⟨out, made, carries⟩⟩, rest⟩
    | removed _ rest =>
      have mem := fieldsOf_ident rest out List.mem_cons_self
      rw [keeps field out made] at mem
      exact absurd mem fresh
  · rintro ⟨⟨gone, placed⟩, rest⟩
    have kept : ¬ field.RemovedIn schema := by
      intro removed
      rw [made] at gone
      cases gone removed
    obtain ⟨out', there, carries⟩ := placed kept
    rw [made] at there
    cases there
    exact .kept kept carries rest

theorem fieldsOf_filterMap_iff {fields : List Field}
    (distinct : (fields.map Field.ident).Nodup) :
    FieldsOf schema fields (fields.filterMap output) ↔
      ∀ field ∈ fields, Placed schema output field := by
  induction fields with
  | nil => exact iff_of_true .nil (fun field mem => absurd mem List.not_mem_nil)
  | cons field fields ih =>
    rw [List.map_cons, List.nodup_cons] at distinct
    rw [List.forall_mem_cons, ← ih distinct.2]
    cases made : output field with
    | none =>
      rw [List.filterMap_cons_none made]
      exact fieldsOf_none_iff keeps distinct.1 made
    | some out =>
      rw [List.filterMap_cons_some made]
      exact fieldsOf_some_iff keeps distinct.1 made

end Generated

theorem output_ident {c : Collected} {schema : Ident} {field out : Field}
    (made : c.output schema field = some out) : out.ident = field.ident := by
  rw [Collected.output] at made
  split at made
  · cases made
  · rw [schemaField] at made
    split at made
    · cases made
    · cases made
      rfl

/-- Which structs the macro makes as documented: some `mandatory_in` attribute is malformed, or
no `remove_in` attribute is and each field that a schema has is printed with its types. -/
def Supported (schemas : List Ident) (fields : FieldsNamed) : Prop :=
  (∃ field ∈ fields.named, ¬ field.MandatoryWellFormed) ∨
    (∀ field ∈ fields.named, field.RemoveWellFormed) ∧
      ∀ schema ∈ schemas, ∀ field ∈ fields.named, ¬ field.RemovedIn schema →
        field.shown ≠ [] ∧ field.Required schema

def generate (schemas : List Ident) (fields : FieldsNamed) :
    Except SynError (List SchemaStruct) :=
  (fields.named.foldlM collect {}).map fun c => schemas.map (schemaStruct c)

theorem deriveInner_eq {attrs : List Attribute} {schemas : List Ident}
    (generates : Generates attrs schemas) (ident : Ident) (fields : FieldsNamed) :
    polymorphicMacroDeriveInner ⟨attrs, ident, .struct (.named fields)⟩ =
      generate schemas fields := by
  have read := getMetadataInner_ok_iff.mpr generates
  rw [polymorphicMacroDeriveInner, read, generate]
  change (fields.named.foldlM collect {} >>= fun c => pure (schemas.map (schemaStruct c))) = _
  cases fields.named.foldlM collect {} with
  | error error => rfl
  | ok c => rfl

theorem structs_iff {schemas : List Ident} {fields : FieldsNamed} {c : Collected}
    (collected : CollectedFrom {} fields.named c)
    (reads : ∀ field ∈ fields.named, field.MandatoryWellFormed ∧ field.RemoveWellFormed) :
    List.Forall₂ (fun schema out => out.name = schema ∧ FieldsOf schema fields.named out.fields)
        schemas (schemas.map (schemaStruct c)) ↔
      ∀ schema ∈ schemas, ∀ field ∈ fields.named, ¬ field.RemovedIn schema →
        field.shown ≠ [] ∧ field.Required schema := by
  rw [List.forall₂_map_right_iff, List.forall₂_same]
  refine forall₂_congr fun schema _ => ?_
  rw [and_iff_right (show (schemaStruct c schema).name = schema from rfl), schemaStruct,
    collected.allFields, List.nil_append, filterMap_entry,
    fieldsOf_filterMap_iff (fun _ _ => output_ident) fields.distinct]
  refine forall₂_congr fun field member => ?_
  obtain ⟨mandatoryReads, removeReads⟩ := reads field member
  have gone := fun removed =>
    @output_removed field _ c fields.distinct collected member schema removeReads removed
  rw [Placed, and_iff_right gone]
  refine forall_congr' fun kept => ?_
  exact output_carries_iff fields.distinct collected member mandatoryReads removeReads kept

theorem documented_read_iff {schemas : List Ident} {fields : FieldsNamed}
    (mandatory : ∀ field ∈ fields.named, field.MandatoryWellFormed) :
    Documented schemas fields (generate schemas fields) ↔
      (∀ field ∈ fields.named, field.RemoveWellFormed) ∧
        ∀ schema ∈ schemas, ∀ field ∈ fields.named, ¬ field.RemovedIn schema →
          field.shown ≠ [] ∧ field.Required schema := by
  obtain ⟨c, run, collected⟩ := collect_all
    (fun field mem => mandatoryIn_reads.mpr (mandatory field mem)) fields.distinct
    (c := {}) (fun _ _ => List.not_mem_nil)
  have made : generate schemas fields = .ok (schemas.map (schemaStruct c)) := by
    rw [generate, run]
    rfl
  rw [made]
  constructor
  · intro documented
    have remove : ∀ field ∈ fields.named, field.RemoveWellFormed := by
      intro field mem
      by_contra malformed
      obtain ⟨error, failed⟩ := documented.malformed ⟨field, mem, fun both => malformed both.2⟩
      cases failed
    have reads := fun field mem => And.intro (mandatory field mem) (remove field mem)
    obtain ⟨structs, same, right⟩ := documented.wellFormed reads
    cases same
    exact ⟨remove, (structs_iff collected reads).mp right⟩
  · rintro ⟨remove, supported⟩
    have reads := fun field mem => And.intro (mandatory field mem) (remove field mem)
    constructor
    · rintro ⟨field, mem, malformed⟩
      exact absurd (reads field mem) malformed
    · intro _
      exact ⟨_, rfl, (structs_iff collected reads).mpr supported⟩

theorem documented_unread {schemas : List Ident} {fields : FieldsNamed} {field : Field}
    (mem : field ∈ fields.named) (malformed : ¬ field.MandatoryWellFormed) :
    Documented schemas fields (generate schemas fields) := by
  have unread : ∀ schemas, field.mandatoryIn ≠ .ok schemas := fun schemas read =>
    malformed (mandatoryIn_reads.mp ⟨schemas, read⟩)
  obtain ⟨error, failed⟩ := collect_error mem unread {}
  have made : generate schemas fields = .error error := by
    rw [generate, failed]
    rfl
  constructor
  · exact fun _ => ⟨error, made⟩
  · intro reads
    exact absurd (reads field mem).1 malformed

theorem documented_generate_iff (schemas : List Ident) (fields : FieldsNamed) :
    Documented schemas fields (generate schemas fields) ↔ Supported schemas fields := by
  by_cases unread : ∃ field ∈ fields.named, ¬ field.MandatoryWellFormed
  · obtain ⟨field, mem, malformed⟩ := unread
    exact iff_of_true (documented_unread mem malformed) (.inl ⟨field, mem, malformed⟩)
  · rw [Supported, or_iff_right unread]
    push Not at unread
    exact documented_read_iff unread

/-- For any attributes of the struct and of its fields, the schemas are those of the
documentation if and only if the struct is supported. -/
theorem documented_iff (attrs : List Attribute) (ident : Ident) (fields : FieldsNamed) :
    (∀ schemas, Generates attrs schemas → Documented schemas fields
        (polymorphicMacroDeriveInner ⟨attrs, ident, .struct (.named fields)⟩)) ↔
      ∀ schemas, Generates attrs schemas → Supported schemas fields := by
  refine forall₂_congr fun schemas generates => ?_
  rw [deriveInner_eq generates]
  exact documented_generate_iff schemas fields

/- The struct of the documentation, with the types that the attribute takes. -/

def amountField : Field :=
  ⟨[⟨"mandatory_in", .list [.ident (.of "PaymentsCreateRequest"), .eq, .ident (.of "u64")]⟩], "",
    .of "amount", "Option<u64>"⟩

def paymentMethodField : Field := ⟨[], "", .of "payment_method", "String"⟩

def paymentsRequest : FieldsNamed := ⟨[amountField, paymentMethodField], by decide⟩

def generateSchemas : Attribute :=
  ⟨"generate_schemas", .list [.ident (.of "PaymentsCreateRequest"), .comma,
    .ident (.of "PaymentsConfirmRequest")]⟩

/-- The payment method has no attribute, and no schema has it. -/
theorem not_documented : ¬ ∀ (attrs : List Attribute) (ident : Ident) (fields : FieldsNamed)
    (schemas : List Ident), Generates attrs schemas → Documented schemas fields
      (polymorphicMacroDeriveInner ⟨attrs, ident, .struct (.named fields)⟩) := by
  intro all
  have generates : Generates [generateSchemas]
      [.of "PaymentsCreateRequest", .of "PaymentsConfirmRequest"] := getMetadataInner_ok_iff.mp rfl
  have documented := all _ (.of "PaymentsRequest") paymentsRequest _ generates
  rw [deriveInner_eq generates, documented_generate_iff] at documented
  have last : paymentMethodField ∈ paymentsRequest.named :=
    List.mem_cons_of_mem _ List.mem_cons_self
  rcases documented with ⟨field, mem, malformed⟩ | ⟨_, supported⟩
  · apply malformed
    rcases List.mem_cons.mp mem with rfl | mem
    · exact mandatoryIn_reads.mp ⟨[⟨.of "PaymentsCreateRequest", .of "u64"⟩], rfl⟩
    · obtain rfl := List.mem_singleton.mp mem
      exact mandatoryIn_reads.mp ⟨[], rfl⟩
  · have kept : ¬ paymentMethodField.RemovedIn (.of "PaymentsCreateRequest") := by
      rintro ⟨attr, mem, _⟩
      exact List.not_mem_nil mem
    exact (supported _ List.mem_cons_self _ last kept).1 rfl

end Mercado.Derive
