import Mathlib.Algebra.Group.Int.Defs
import Mercado.Results

/-! JSON as serde_json writes and reads it, and what derived code reads from it. -/
namespace SerdeJson
open Results

inductive Number where
  | int (n : Int)
  | float (bits : UInt64)
  deriving DecidableEq, Repr

def Number.asI64 : Number → Option Int
  | .int n => if -2 ^ 63 ≤ n ∧ n < 2 ^ 63 then some n else none
  | .float _ => none

/-- The entries of an object stand in the order in which they are written, and a key may
come several times. -/
inductive Value where
  | null
  | bool (b : Bool)
  | number (n : Number)
  | string (s : String)
  | array (items : List Value)
  | object (entries : List (String × Value))

inductive Error where
  | invalidType
  | invalidLength
  | invalidValue
  | missingField (name : String)
  | duplicateField (name : String)
  | unknownVariant (name : String)
  | custom (msg : String)
  deriving DecidableEq, Repr

/- The object of a `Value` is an ordered map: of several values of one key the last counts. -/

def insertEntry {α : Type} (key : String) (a : α) : List (String × α) → List (String × α)
  | [] => [(key, a)]
  | (k, b) :: rest =>
    if key < k then (key, a) :: (k, b) :: rest
    else if key = k then (key, a) :: rest
    else (k, b) :: insertEntry key a rest

mutual

def Value.collect : Value → Value
  | .array items => .array (collectItems items)
  | .object entries => .object (collectEntries [] entries)
  | j => j

def collectItems : List Value → List Value
  | [] => []
  | j :: items => j.collect :: collectItems items

def collectEntries (map : List (String × Value)) :
    List (String × Value) → List (String × Value)
  | [] => map
  | (key, j) :: entries => collectEntries (insertEntry key j.collect map) entries

end

/-- The text layer: `to_string` and `from_str`. -/
structure Text where
  toString : Value → String
  fromStr : String → Except Error Value

class Codec (α : Type) where
  serialize : α → Except Error Value
  deserialize : Value → Except Error α

/-- Every value can be written, and is read back. -/
def Codec.Faithful (α : Type) [Codec α] : Prop :=
  ∀ a : α, ∃ j, serialize a = .ok j ∧ deserialize j = .ok a

theorem filter_of_distinct {α β : Type} [DecidableEq β] {f : α → β} {l : List α} {a : α}
    (distinct : (l.map f).Nodup) (mem : a ∈ l) : l.filter (fun b => f b = f a) = [a] := by
  induction l with
  | nil => cases mem
  | cons b rest ih =>
    rw [List.map_cons, List.nodup_cons] at distinct
    rcases List.mem_cons.mp mem with rfl | mem
    · have none : rest.filter (fun b => f b = f a) = [] := by
        refine List.filter_eq_nil_iff.mpr fun c mem => ?_
        have other : f c ≠ f a := fun same => distinct.1 (same ▸ List.mem_map_of_mem mem)
        simpa using other
      rw [List.filter_cons_of_pos (by simp), none]
    · have other : f b ≠ f a := fun same => distinct.1 (same ▸ List.mem_map_of_mem mem)
      rw [List.filter_cons_of_neg (by simpa using other), ih distinct.2 mem]

section Scalars

variable {α : Type}

def asString : Value → Except Error String
  | .string s => .ok s
  | _ => .error .invalidType

def asI32 : Value → Except Error Int32
  | .number n =>
    match n.asI64 with
    | some n =>
      if -2 ^ 31 ≤ n ∧ n < 2 ^ 31 then .ok (.ofInt n) else .error .invalidValue
    | none => .error .invalidType
  | _ => .error .invalidType

def asArray (read : Value → Except Error α) : Value → Except Error (List α)
  | .array items => items.mapM read
  | _ => .error .invalidType

def asOption (read : Value → Except Error α) : Value → Except Error (Option α)
  | .null => .ok none
  | j => (read j).map some

def ofI32 (n : Int32) : Value := .number (.int n.toInt)

def ofOption (write : α → Except Error Value) : Option α → Except Error Value
  | none => .ok .null
  | some a => write a

theorem asI32_ofI32 (n : Int32) : asI32 (ofI32 n) = .ok n := by
  have low : -2 ^ 31 ≤ n.toInt := n.le_toInt
  have high : n.toInt < 2 ^ 31 := n.toInt_lt
  have wide : -2 ^ 63 ≤ n.toInt ∧ n.toInt < 2 ^ 63 := by omega
  simp only [asI32, ofI32, Number.asI64, if_pos wide, if_pos (And.intro low high),
    Int32.ofInt_toInt]

theorem asArray_ok {read : Value → Except Error α} {j : Value} {xs : List α} :
    asArray read j = .ok xs ↔
      ∃ items, j = .array items ∧ List.Forall₂ (fun item x => read item = .ok x) items xs := by
  cases j <;> simp [asArray, mapM_ok]

end Scalars

section Fields

variable {α : Type}

def entriesOf (name : String) (entries : List (String × α)) : List (String × α) :=
  entries.filter fun e => e.1 = name

/-- A field among the entries of a map: other keys are skipped, its own may come once. -/
def field (name : String) (entries : List (String × α)) : Except Error (Option α) :=
  match entriesOf name entries with
  | [] => .ok none
  | [e] => .ok (some e.2)
  | _ => .error (.duplicateField name)

def required (name : String) (entries : List (String × α)) : Except Error α := do
  match ← field name entries with
  | some a => return a
  | none => .error (.missingField name)

def get (name : String) (read : Value → Except Error α) (entries : List (String × Value)) :
    Except Error α := do
  read (← required name entries)

def getOption (name : String) (read : Value → Except Error α)
    (entries : List (String × Value)) : Except Error (Option α) := do
  match ← field name entries with
  | some j => asOption read j
  | none => return none

/-- The entries of a struct. An array has its fields in order. -/
def struct (names : List String) : Value → Except Error (List (String × Value))
  | .object entries => .ok entries
  | .array items =>
    if items.length = names.length then .ok (names.zip items) else .error .invalidLength
  | _ => .error .invalidType

def adjacentlyTagged (tag content : String) (j : Value) : Except Error (Value × Value) := do
  let entries ← struct [tag, content] j
  return (← required tag entries, ← required content entries)

/-- The content of a struct variant with one field. Unlike a struct it is no array. -/
def onlyField (name : String) : Value → Except Error Value
  | .object entries => required name entries
  | _ => .error .invalidType

/-- A unit variant: its name, or an object with its name and null. -/
def variantName : Value → Except Error String
  | .string name => .ok name
  | .object [(name, .null)] => .ok name
  | _ => .error .invalidType

def HasEntries (fields entries : List (String × α)) : Prop :=
  ∀ f ∈ fields, entriesOf f.1 entries = [f]

def HasObject (fields : List (String × Value)) (j : Value) : Prop :=
  ∃ entries, j = .object entries ∧ HasEntries fields entries

def HasFields (fields : List (String × Value)) (j : Value) : Prop :=
  HasObject fields j ∨ j = .array (fields.map Prod.snd)

def Holds (name : String) (read : Value → Except Error α) (a : α)
    (entries : List (String × Value)) : Prop :=
  ∃ j, entriesOf name entries = [(name, j)] ∧ read j = .ok a

def HoldsOption (name : String) (read : Value → Except Error α) (o : Option α)
    (entries : List (String × Value)) : Prop :=
  entriesOf name entries = [] ∧ o = none ∨ Holds name (asOption read) o entries

def NamesVariant (name : String) (j : Value) : Prop :=
  j = .string name ∨ j = .object [(name, .null)]

@[simp] theorem entriesOf_nil (name : String) : entriesOf name ([] : List (String × α)) = [] := rfl

theorem entriesOf_cons (name : String) (e : String × α) (entries : List (String × α)) :
    entriesOf name (e :: entries) =
      if e.1 = name then e :: entriesOf name entries else entriesOf name entries := by
  simp [entriesOf, List.filter_cons]

theorem key_of_entriesOf {name : String} {entries : List (String × α)} {e : String × α}
    (mem : e ∈ entriesOf name entries) : e.1 = name := by
  simpa using (List.mem_filter.mp mem).2

theorem required_ok {name : String} {entries : List (String × α)} {a : α} :
    required name entries = .ok a ↔ entriesOf name entries = [(name, a)] := by
  unfold required field
  cases found : entriesOf name entries with
  | nil => simp [bind, Except.bind]
  | cons e rest =>
    have first : e ∈ entriesOf name entries := by simp [found]
    have same : e.1 = name := key_of_entriesOf first
    cases rest <;> simp [bind, Except.bind, pure, Except.pure, ← same, Prod.ext_iff]

theorem get_ok {name : String} {read : Value → Except Error α} {entries : List (String × Value)}
    {a : α} : get name read entries = .ok a ↔ Holds name read a entries := by
  simp only [get, bind_ok, required_ok, Holds]

theorem getOption_ok {name : String} {read : Value → Except Error α}
    {entries : List (String × Value)} {o : Option α} :
    getOption name read entries = .ok o ↔ HoldsOption name read o entries := by
  unfold getOption field HoldsOption Holds
  cases found : entriesOf name entries with
  | nil => simp [bind, Except.bind, pure, Except.pure, eq_comm]
  | cons e rest =>
    have first : e ∈ entriesOf name entries := by simp [found]
    have same : e.1 = name := key_of_entriesOf first
    cases rest <;> simp [bind, Except.bind, ← same, Prod.ext_iff]

theorem variantName_ok {j : Value} {name : String} :
    variantName j = .ok name ↔ NamesVariant name j := by
  unfold variantName NamesVariant
  split <;> simp_all

theorem hasEntries_self {fields : List (String × α)} (distinct : (fields.map Prod.fst).Nodup) :
    HasEntries fields fields := fun _ => filter_of_distinct distinct

theorem required_iff_mem {name : String} {fields : List (String × α)} {a : α}
    (distinct : (fields.map Prod.fst).Nodup) :
    required name fields = .ok a ↔ (name, a) ∈ fields := by
  rw [required_ok]
  constructor
  · intro only
    have found : (name, a) ∈ entriesOf name fields := only ▸ List.mem_singleton_self _
    exact (List.mem_filter.mp found).1
  · exact hasEntries_self distinct (name, a)

theorem Holds.self {name : String} {read : Value → Except Error α} {a : α}
    {fields : List (String × Value)} (distinct : (fields.map Prod.fst).Nodup) (j : Value)
    (mem : (name, j) ∈ fields) (value : read j = .ok a) : Holds name read a fields :=
  ⟨j, hasEntries_self distinct (name, j) mem, value⟩

theorem Holds.value {name : String} {read : Value → Except Error α} {a : α}
    {fields : List (String × Value)} (holds : Holds name read a fields)
    (distinct : (fields.map Prod.fst).Nodup) {j : Value} (mem : (name, j) ∈ fields) :
    read j = .ok a := by
  obtain ⟨j', only, value⟩ := holds
  cases (hasEntries_self distinct (name, j) mem).symm.trans only
  exact value

theorem hasEntries_zip {fields : List (String × α)} {items : List α}
    (distinct : (fields.map Prod.fst).Nodup) (length : items.length = fields.length)
    (has : HasEntries fields ((fields.map Prod.fst).zip items)) : items = fields.map Prod.snd := by
  induction fields generalizing items with
  | nil => simpa using length
  | cons e rest ih =>
    cases items with
    | nil => cases length
    | cons a items =>
      rw [List.map_cons, List.nodup_cons] at distinct
      have first := has e List.mem_cons_self
      rw [List.map_cons, List.zip_cons_cons, entriesOf_cons, if_pos rfl] at first
      have value : a = e.2 := congrArg Prod.snd (List.cons.inj first).1
      have later : HasEntries rest ((rest.map Prod.fst).zip items) := by
        intro f mem
        have found := has f (List.mem_cons_of_mem _ mem)
        have other : e.1 ≠ f.1 := fun same => distinct.1 (same ▸ List.mem_map_of_mem mem)
        rwa [List.map_cons, List.zip_cons_cons, entriesOf_cons, if_neg other] at found
      rw [List.map_cons, value, ih distinct.2 (Nat.succ.inj length) later]

theorem struct_fields {fields : List (String × Value)} {j : Value}
    (distinct : (fields.map Prod.fst).Nodup) :
    (∃ entries, struct (fields.map Prod.fst) j = .ok entries ∧ HasEntries fields entries) ↔
      HasFields fields j := by
  constructor
  · rintro ⟨entries, read, has⟩
    cases j with
    | object all =>
      cases read
      exact .inl ⟨entries, rfl, has⟩
    | array items =>
      simp only [struct, List.length_map] at read
      split at read
      · rename_i length
        cases read
        exact .inr (congrArg Value.array (hasEntries_zip distinct length has))
      · cases read
    | null | bool | number | string => cases read
  · rintro (⟨entries, rfl, has⟩ | rfl)
    · exact ⟨entries, rfl, has⟩
    · refine ⟨fields, ?_, hasEntries_self distinct⟩
      have whole : (fields.map Prod.fst).zip (fields.map Prod.snd) = fields :=
        (List.zip_of_prod rfl rfl).symm
      simp only [struct, List.length_map, if_true, whole]

theorem adjacentlyTagged_ok {tag content : String} (differ : tag ≠ content) {j t c : Value} :
    adjacentlyTagged tag content j = .ok (t, c) ↔ HasFields [(tag, t), (content, c)] j := by
  have distinct : ([(tag, t), (content, c)].map Prod.fst).Nodup := by simp [differ]
  rw [← struct_fields distinct]
  unfold adjacentlyTagged HasEntries
  constructor
  · intro read
    obtain ⟨entries, opened, read⟩ := bind_ok.mp read
    obtain ⟨t', tagged, read⟩ := bind_ok.mp read
    obtain ⟨c', held, read⟩ := bind_ok.mp read
    cases read
    refine ⟨entries, opened, ?_⟩
    simp [required_ok.mp tagged, required_ok.mp held]
  · rintro ⟨entries, opened, has⟩
    have tagged := required_ok.mpr (has (tag, t) (by simp))
    have held := required_ok.mpr (has (content, c) (by simp))
    exact bind_ok.mpr ⟨entries, opened, bind_ok.mpr ⟨t, tagged, bind_ok.mpr ⟨c, held, rfl⟩⟩⟩

theorem onlyField_ok {name : String} {j v : Value} :
    onlyField name j = .ok v ↔ HasObject [(name, v)] j := by
  constructor
  · intro read
    cases j with
    | object entries =>
      refine ⟨entries, rfl, fun f mem => ?_⟩
      cases List.mem_singleton.mp mem
      exact required_ok.mp read
    | null | bool | number | string | array => cases read
  · rintro ⟨entries, rfl, has⟩
    exact required_ok.mpr (has (name, v) (List.mem_singleton_self _))

end Fields

end SerdeJson
