import Mathlib.Logic.Relation
import Mercado.Logger.Storage

/-! The tree of spans: which spans count for which, what the functions of the subscription do
to it, and what has been recorded last. -/
namespace Mercado.Logger

structure Recording where
  span : Nat
  key : String
  value : Value

def recordingsOf (id : Nat) (fields : Fields) : List Recording :=
  (fields.filterMap fun field => (field.2.key field.1).map (⟨id, ·, field.2.value⟩)).reverse

open scoped Classical in
noncomputable def latest (p : Recording → Prop) (recordings : List Recording) : Option Recording :=
  recordings.find? fun r => p r

namespace Registry

variable (r : Registry)

def stored (id : Nat) (key : String) : Option Value :=
  (r[id]?.bind (·.storage)).bind (·.get key)

def parentOf (id : Nat) : Option Nat := r[id]?.bind (·.parent)

def Open (id : Nat) : Prop := ∃ span, r[id]? = some span ∧ span.closed = false

def Closed (id : Nat) : Prop := ∃ span, r[id]? = some span ∧ span.closed = true

/-- From a span to its parent. Unless all descendants count, only a closed one leads there. -/
def Up (all : Bool) (d p : Nat) : Prop := r.parentOf d = some p ∧ (all = true ∨ r.Closed d)

/-- What is recorded in `d` counts for `s`: it is the span itself or a closed descendant. Those
that lie in a descendant that is still open count if all do. -/
def Counts (all : Bool) (s d : Nat) : Prop :=
  Relation.ReflTransGen (r.Up all) d s ∧ (d = s ∨ r.Closed d)

def CountsFor (all : Bool) (s : Nat) (key : String) (recording : Recording) : Prop :=
  recording.key = key ∧ r.Counts all s recording.span

def shape : List (Option Nat × Bool) := r.map fun span => (span.parent, span.closed)

end Registry

/- The latest of a list. -/

section Latest

variable {p q : Recording → Prop} {l new old : List Recording} {r : Recording}

theorem latest_append : latest p (new ++ old) = (latest p new).or (latest p old) :=
  List.find?_append

theorem latest_none : latest p l = none ↔ ∀ r ∈ l, ¬ p r := by
  unfold latest
  simp

theorem latest_congr (same : ∀ r ∈ l, p r ↔ q r) : latest p l = latest q l := by
  induction l with
  | nil => rfl
  | cons r l ih =>
    have rest := ih fun x mem => same x (List.mem_cons_of_mem r mem)
    have here := same r List.mem_cons_self
    unfold latest at rest ⊢
    by_cases holds : q r
    · rw [List.find?_cons_of_pos (by simpa using here.mpr holds),
        List.find?_cons_of_pos (by simpa using holds)]
    · rw [List.find?_cons_of_neg (by simpa using fun own => holds (here.mp own)),
        List.find?_cons_of_neg (by simpa using holds), rest]

theorem latest_of_or (h : latest (fun r => p r ∨ q r) l = some r) (own : p r) :
    latest p l = some r := by
  induction l with
  | nil => cases h
  | cons x l ih =>
    unfold latest at h ih ⊢
    by_cases first : p x
    · simp only [List.find?_cons, first, true_or, decide_true] at h ⊢
      exact h
    · by_cases second : q x
      · simp only [List.find?_cons, second, or_true, decide_true] at h
        cases h
        exact absurd own first
      · simp only [List.find?_cons, first, second, or_false, decide_false] at h ⊢
        exact ih h

end Latest

/- What the steps do to the registry. -/

namespace Registry

variable {r : Registry} {id : Nat} {key : String}

theorem parentOf_shape (r : Registry) (id : Nat) : r.parentOf id = r.shape[id]?.bind (·.1) := by
  unfold parentOf shape
  rw [List.getElem?_map]
  cases r[id]? <;> rfl

theorem closed_shape (r : Registry) (id : Nat) :
    r.Closed id ↔ r.shape[id]?.map (·.2) = some true := by
  unfold Closed shape
  rw [List.getElem?_map]
  cases r[id]? <;> simp

theorem open_shape (r : Registry) (id : Nat) :
    r.Open id ↔ r.shape[id]?.map (·.2) = some false := by
  unfold Open shape
  rw [List.getElem?_map]
  cases r[id]? <;> simp

theorem modify_shape {f : Span → Span}
    (same : ∀ span, (f span).parent = span.parent ∧ (f span).closed = span.closed) :
    shape (List.modify r id f) = r.shape := by
  apply List.ext_getElem?
  intro j
  unfold shape
  rw [List.getElem?_map, List.getElem?_map, List.getElem?_modify]
  cases r[j]? with
  | none => rfl
  | some span =>
    by_cases here : id = j
    · simp [here, same span]
    · simp [here]

@[simp] theorem insertValue_shape (k : String) (value : Value) :
    (r.insertValue id k value).shape = r.shape := modify_shape fun _ => ⟨rfl, rfl⟩

@[simp] theorem setStorage_shape (s : Storage) : (r.setStorage id s).shape = r.shape :=
  modify_shape fun _ => ⟨rfl, rfl⟩

theorem stored_setStorage {s : Storage} {span : Span} (found : r[id]? = some span) (j : Nat) :
    (r.setStorage id s).stored j key = if j = id then s.get key else r.stored j key := by
  unfold stored setStorage
  rw [List.getElem?_modify]
  by_cases here : id = j
  · subst here
    simp [found]
  · simp [here, Ne.symm here]

theorem stored_insertValue {k : String} {value : Value} {s : Storage} {span : Span}
    (found : r[id]? = some span) (storage : span.storage = some s) (j : Nat) :
    (r.insertValue id k value).stored j key =
      if j = id ∧ key = k then some value else r.stored j key := by
  unfold stored insertValue
  rw [List.getElem?_modify]
  by_cases here : id = j
  · subst here
    simp [found, storage, Storage.get_insert]
  · simp [here, Ne.symm here]

end Registry

theorem get_record (id : Nat) (fields : Fields) (s : Storage) (key : String) :
    (s.record fields).get key =
      ((latest (·.key = key) (recordingsOf id fields)).map (·.value)).or (s.get key) := by
  induction fields generalizing s with
  | nil => rfl
  | cons field fields ih =>
    change ((s.visit field).record fields).get key = _
    rw [ih]
    have split : recordingsOf id (field :: fields) = recordingsOf id fields ++
        ((field.2.key field.1).map (⟨id, ·, field.2.value⟩)).toList := by
      unfold recordingsOf
      cases found : field.2.key field.1 <;> simp [found]
    rw [split, latest_append]
    cases latest (·.key = key) (recordingsOf id fields) with
    | some r => rfl
    | none =>
      unfold Storage.visit
      cases field.2.key field.1 with
      | none => rfl
      | some k =>
        simp only [Storage.get_insert]
        by_cases same : key = k
        · simp [latest, same]
        · simp [latest, same, Ne.symm same]

/- One lemma for each function of the subscription. -/

namespace Registry

def Stores (r : Registry) : Prop :=
  ∀ (j : Nat) (span : Span), r[j]? = some span → span.storage.isSome = true

variable {r r' : Registry} {id now : Nat} {fields values : Fields}

theorem Stores.modify {f : Span → Span} (stores : r.Stores)
    (keeps : ∀ span : Span, span.storage.isSome = true → (f span).storage.isSome = true) :
    Stores (List.modify r id f) := by
  intro j span at'
  rw [List.getElem?_modify] at at'
  obtain ⟨before, found, rfl⟩ := Option.map_eq_some_iff.mp at'
  split
  · exact keeps before (stores j before found)
  · exact stores j before found

theorem span_some {span : Span} (h : r.span id = some span) :
    r[id]? = some span ∧ span.closed = false := by
  obtain ⟨found, isOpen⟩ := Option.filter_eq_some_iff.mp h
  exact ⟨found, by simpa using isOpen⟩

theorem stored_of {span : Span} (found : r[id]? = some span) {s : Storage}
    (storage : span.storage = some s) (key : String) : r.stored id key = s.get key := by
  unfold stored
  rw [found, Option.bind_some, storage, Option.bind_some]

end Registry

open Registry

theorem onRecord_spec {r r' : Registry} {id : Nat} {values : Fields}
    (h : onRecord id values r = some r') :
    r.Open id ∧ r'.shape = r.shape ∧ (r.Stores → r'.Stores) ∧ ∀ j key, r'.stored j key =
      if j = id then
        ((latest (·.key = key) (recordingsOf id values)).map (·.value)).or (r.stored id key)
      else r.stored j key := by
  unfold onRecord at h
  obtain ⟨span, isSpan, h⟩ := Option.bind_eq_some_iff.mp h
  obtain ⟨visitor, storage, h⟩ := Option.bind_eq_some_iff.mp h
  cases h
  obtain ⟨found, isOpen⟩ := span_some isSpan
  refine ⟨⟨span, found, isOpen⟩, modify_shape fun _ => ⟨rfl, rfl⟩,
    fun stores => stores.modify fun _ _ => rfl, ?_⟩
  intro j key
  rw [stored_setStorage found, get_record id, stored_of found storage]

theorem onEnter_spec {r r' : Registry} {id now : Nat} (h : onEnter id now r = some r') :
    r'.shape = r.shape ∧ (r.Stores → r'.Stores) ∧ ∀ j key, r'.stored j key = r.stored j key := by
  unfold onEnter at h
  obtain ⟨span, isSpan, h⟩ := Option.bind_eq_some_iff.mp h
  split at h
  · cases h
    refine ⟨modify_shape fun _ => ⟨rfl, rfl⟩, fun stores => stores.modify fun _ storage => storage,
      fun j key => ?_⟩
    unfold stored
    rw [List.getElem?_modify]
    by_cases here : id = j
    · subst here
      rw [(span_some isSpan).1]
      simp
    · simp [here]
  · cases h
    exact ⟨rfl, fun stores => stores, fun _ _ => rfl⟩

theorem onNewSpan_spec {r r' : Registry} {parent : Option Nat} {fields : Fields}
    (isOpen : ∀ p ∈ parent, (r.span p).isSome = true)
    (h : onNewSpan fields r.length (r ++ [{ parent := parent }]) = some r') :
    r'.shape = r.shape ++ [(parent, false)] ∧ (r.Stores → r'.Stores) ∧
      ∀ j key, r'.stored j key = if j = r.length then
        ((latest (·.key = key) (recordingsOf r.length fields)).map (·.value)).or
          (parent.bind (r.stored · key))
        else r.stored j key := by
  have front : ∀ j, j ≠ r.length → (r ++ [({ parent := parent } : Span)])[j]? = r[j]? := by
    intro j other
    rcases Nat.lt_or_gt_of_ne other with before | beyond
    · exact List.getElem?_append_left before
    · have length : (r ++ [({ parent := parent } : Span)]).length = r.length + 1 := by simp
      rw [List.getElem?_eq_none (by omega), List.getElem?_eq_none (by omega)]
  have last : (r ++ [({ parent := parent } : Span)])[r.length]? = some { parent := parent } :=
    List.getElem?_concat_length
  unfold onNewSpan at h
  obtain ⟨span, isSpan, h⟩ := Option.bind_eq_some_iff.mp h
  cases (span_some isSpan).1.symm.trans last
  cases h
  refine ⟨?_, ?_, ?_⟩
  · rw [setStorage_shape]
    simp [shape]
  · intro stores j span at'
    rw [setStorage, List.getElem?_modify] at at'
    obtain ⟨before, found, rfl⟩ := Option.map_eq_some_iff.mp at'
    split
    · rfl
    · rename_i other
      rw [front j (Ne.symm other)] at found
      exact stores j before found
  · intro j key
    rw [stored_setStorage last, get_record r.length]
    split
    · congr 1
      cases parent with
      | none => rfl
      | some p =>
        obtain ⟨parentSpan, isParent⟩ := Option.isSome_iff_exists.mp (isOpen p rfl)
        obtain ⟨found, -⟩ := span_some isParent
        have before : p ≠ r.length := by
          rintro rfl
          simp at found
        have same : (r ++ [({ parent := some p } : Span)]).span p = some parentSpan := by
          rw [span, front p before]
          exact isParent
        simp only [Option.bind_some, same]
        unfold stored
        rw [found, Option.bind_some]
        cases parentSpan.storage <;> rfl
    · rename_i other
      unfold stored
      rw [front j other]

theorem handUp_root (values : Values) (r : Registry) : handUp none values r = r := by
  unfold handUp
  induction values.entries with
  | nil => rfl
  | cons entry entries ih =>
    rw [List.foldl_cons, ite_self]
    exact ih

theorem handUp_spec (values : Values) {p : Nat} {r : Registry} {span : Span}
    (found : r[p]? = some span) (storage : span.storage.isSome = true) :
    (handUp (some p) values r).shape = r.shape ∧ (r.Stores → (handUp (some p) values r).Stores) ∧
      (∀ j : Nat, j ≠ p → (handUp (some p) values r)[j]? = r[j]?) ∧
      ∀ key, (handUp (some p) values r).stored p key =
        if key ∈ persistentKeys then (values.lookup key).or (r.stored p key)
        else r.stored p key := by
  obtain ⟨entries, nodup⟩ := values
  unfold handUp AList.lookup
  simp only
  induction entries generalizing r span with
  | nil =>
    refine ⟨rfl, fun stores => stores, fun _ _ => rfl, fun key => ?_⟩
    simp
  | cons entry entries ih =>
    obtain ⟨k, value⟩ := entry
    obtain ⟨absent, nodup⟩ := List.nodupKeys_cons.mp nodup
    rw [List.foldl_cons]
    by_cases persistent : k ∈ persistentKeys
    · obtain ⟨s, isStored⟩ := Option.isSome_iff_exists.mp storage
      have at' : (r.insertValue p k value)[p]? =
          some { span with storage := some (s.insert k value) } := by
        simp [insertValue, found, isStored]
      obtain ⟨shape, stores, others, held⟩ := ih at' rfl nodup
      rw [if_pos persistent]
      refine ⟨shape.trans (insertValue_shape k value), fun before => stores ?_, ?_, ?_⟩
      · apply before.modify
        intro span storage
        simpa using storage
      · intro j other
        rw [others j other]
        simp [insertValue, Ne.symm other]
      · intro key
        rw [held key, stored_insertValue found isStored]
        by_cases same : key = k
        · subst same
          simp [persistent, List.dlookup_eq_none.mpr absent]
        · simp [same, List.dlookup_cons_ne]
    · rw [if_neg persistent]
      obtain ⟨shape, stores, others, held⟩ := ih found storage nodup
      refine ⟨shape, stores, others, fun key => ?_⟩
      rw [held key]
      by_cases same : key = k
      · simp [same, persistent]
      · simp [List.dlookup_cons_ne, same]

theorem setStorage_spec {r : Registry} (id : Nat) (s : Storage) :
    (r.Stores → (r.setStorage id s).Stores) ∧
      ∀ j : Nat, j ≠ id → (r.setStorage id s)[j]? = r[j]? := by
  refine ⟨fun stores => stores.modify fun _ _ => rfl, fun j other => ?_⟩
  simp [setStorage, Ne.symm other]

theorem onClose_spec {r r' : Registry} {id now : Nat} (stores : r.Stores)
    (parents : ∀ p, r.parentOf id = some p → p < r.length ∧ p ≠ id)
    (h : onClose id now r = some r') :
    r.Open id ∧ r'.shape = r.shape ∧ r'.Stores ∧
      (∀ j : Nat, j ≠ id → r.parentOf id ≠ some j → r'[j]? = r[j]?) ∧
      ∀ j key, j ≠ id → r'.stored j key =
        if r.parentOf id = some j ∧ key ∈ persistentKeys then
          (r.stored id key).or (r.stored j key)
        else r.stored j key := by
  unfold onClose at h
  obtain ⟨span, isSpan, h⟩ := Option.bind_eq_some_iff.mp h
  obtain ⟨found, isOpen⟩ := span_some isSpan
  obtain ⟨s, storage⟩ := Option.isSome_iff_exists.mp (stores id span found)
  have parent : r.parentOf id = span.parent := by rw [parentOf, found, Option.bind_some]
  simp only [storage] at h
  obtain ⟨visitor, -, h⟩ := Option.bind_eq_some_iff.mp h
  cases h
  generalize visitor.insert _ _ = last
  have held := stored_of found storage
  rw [parent] at parents ⊢
  refine ⟨⟨span, found, isOpen⟩, ?_⟩
  cases up : span.parent with
  | none =>
    rw [handUp_root]
    obtain ⟨keeps, others⟩ := setStorage_spec (r := r) id last
    refine ⟨setStorage_shape last, keeps stores, fun j other _ => others j other, ?_⟩
    intro j key other
    rw [stored, others j other]
    simp [stored]
  | some p =>
    obtain ⟨inside, differs⟩ := parents p up
    obtain ⟨shape, upStores, upOthers, upHeld⟩ := handUp_spec s.values
      (List.getElem?_eq_getElem inside) (stores p _ (List.getElem?_eq_getElem inside))
    obtain ⟨keeps, others⟩ := setStorage_spec (r := handUp (some p) s.values r) id last
    refine ⟨(setStorage_shape last).trans shape, keeps (upStores stores), ?_, ?_⟩
    · intro j other notUp
      rw [others j other]
      exact upOthers j fun same => notUp (congrArg some same.symm)
    · intro j key other
      rw [stored, others j other]
      by_cases here : j = p
      · subst here
        rw [held key, if_congr (and_iff_right rfl) rfl rfl]
        exact upHeld key
      · rw [upOthers j here, if_neg fun same => here (Option.some.inj same.1).symm]
        rfl

/- Which spans count for which. -/

namespace Registry

variable {r r' : Registry} {all : Bool} {s d c p : Nat}

theorem counts_self (r : Registry) (all : Bool) (s : Nat) : r.Counts all s s :=
  ⟨.refl, .inl rfl⟩

theorem counts_congr (same : r'.shape = r.shape) : r'.Counts all s d ↔ r.Counts all s d := by
  have parentOf : r'.parentOf = r.parentOf := by
    funext j
    rw [parentOf_shape, parentOf_shape, same]
  have closed : r'.Closed = r.Closed := by
    funext j
    rw [eq_iff_iff, closed_shape, closed_shape, same]
  unfold Counts Up
  rw [parentOf, closed]

theorem open_congr (same : r'.shape = r.shape) : r'.Open s ↔ r.Open s := by
  rw [open_shape, open_shape, same]

theorem not_closed (isOpen : r.Open s) : ¬ r.Closed s := by
  rintro ⟨span, found, closed⟩
  obtain ⟨span', found', isOpen⟩ := isOpen
  cases found.symm.trans found'
  cases isOpen.symm.trans closed

theorem counts_open (isOpen : r.Open d) : r.Counts all s d ↔ s = d := by
  constructor
  · rintro ⟨-, same | closed⟩
    · exact same.symm
    · exact absurd closed (not_closed isOpen)
  · rintro rfl
    exact counts_self r all s

def Nested (r : Registry) : Prop :=
  ∀ d p, r.parentOf d = some p → p < d ∧ (r.Open d → r.Open p)

theorem up_le (nested : r.Nested) (up : Relation.ReflTransGen (r.Up all) d s) : s ≤ d := by
  induction up with
  | refl => exact Nat.le_refl d
  | tail _ step ih => exact Nat.le_trans (Nat.le_of_lt (nested _ _ step.1).1) ih

theorem up_lt (nested : r.Nested) (up : Relation.TransGen (r.Up all) d s) : s < d := by
  obtain ⟨x, step, rest⟩ := Relation.TransGen.head'_iff.mp up
  exact Nat.lt_of_le_of_lt (up_le nested rest) (nested d x step.1).1

section New

variable {parent : Option Nat} (new : r'.shape = r.shape ++ [(parent, false)])
include new

theorem new_length : r'.length = r.length + 1 := by
  have length := congrArg List.length new
  simpa [shape] using length

theorem new_shape (d : Nat) : r'.shape[d]? =
    if d = r.length then some (parent, false) else r.shape[d]? := by
  have length : r.shape.length = r.length := List.length_map ..
  rw [new]
  split
  · rename_i last
    rw [last, ← length, List.getElem?_concat_length]
  · rename_i other
    rcases Nat.lt_or_gt_of_ne other with before | beyond
    · exact List.getElem?_append_left (length ▸ before)
    · rw [List.getElem?_eq_none (by simp; omega), List.getElem?_eq_none (by omega)]

theorem new_parentOf (d : Nat) : r'.parentOf d = if d = r.length then parent else r.parentOf d := by
  rw [parentOf_shape, new_shape new, parentOf_shape]
  split <;> rfl

theorem new_closed (d : Nat) : r'.Closed d ↔ r.Closed d := by
  rw [closed_shape, new_shape new, closed_shape]
  split
  · rename_i last
    have none : r.shape[d]? = none := by
      apply List.getElem?_eq_none
      rw [last, shape, List.length_map]
    simp [none]
  · rfl

theorem new_open (d : Nat) : r'.Open d ↔ d = r.length ∨ r.Open d := by
  rw [open_shape, new_shape new, open_shape]
  split
  · rename_i last
    simp [last]
  · rename_i other
    simp [other]

theorem new_up (nested : r.Nested) (before : d < r.length) :
    Relation.ReflTransGen (r'.Up all) d s ↔ Relation.ReflTransGen (r.Up all) d s := by
  have step : ∀ x y, x ≤ d → (r'.Up all x y ↔ r.Up all x y) := by
    intro x y inside
    unfold Up
    rw [new_parentOf new, new_closed new, if_neg (by omega)]
  constructor
  · intro up
    suffices Relation.ReflTransGen (r.Up all) d s ∧ s ≤ d from this.1
    induction up with
    | refl => exact ⟨.refl, Nat.le_refl d⟩
    | tail _ last ih =>
      have last := (step _ _ ih.2).mp last
      exact ⟨ih.1.tail last, Nat.le_trans (Nat.le_of_lt (nested _ _ last.1).1) ih.2⟩
  · intro up
    induction up with
    | refl => exact .refl
    | tail first last ih => exact ih.tail ((step _ _ (up_le nested first)).mpr last)

theorem new_counts (nested : r.Nested) (before : d < r.length) :
    r'.Counts all s d ↔ r.Counts all s d := by
  unfold Counts
  rw [new_up new nested before, new_closed new]

end New

section Close

variable (closes : r'.shape = r.shape.set c (r.parentOf c, true))
  (wasOpen : r.Open c)
include closes wasOpen

theorem close_shape (d : Nat) : r'.shape[d]? =
    if d = c then some (r.parentOf c, true) else r.shape[d]? := by
  have inside : c < r.shape.length := by
    obtain ⟨span, found, -⟩ := wasOpen
    rw [shape, List.length_map]
    exact (List.getElem?_eq_some_iff.mp found).1
  rw [closes, List.getElem?_set]
  by_cases same : d = c
  · rw [if_pos same, if_pos same.symm, if_pos inside]
  · rw [if_neg same, if_neg (Ne.symm same)]

theorem close_parentOf (d : Nat) : r'.parentOf d = r.parentOf d := by
  rw [parentOf_shape, close_shape closes wasOpen]
  split
  · rename_i same
    rw [same]
    rfl
  · exact (parentOf_shape r d).symm

theorem close_closed (d : Nat) : r'.Closed d ↔ d = c ∨ r.Closed d := by
  rw [closed_shape, close_shape closes wasOpen, closed_shape]
  by_cases same : d = c
  · simp [same]
  · simp [same]

theorem close_open (d : Nat) : r'.Open d ↔ d ≠ c ∧ r.Open d := by
  rw [open_shape, close_shape closes wasOpen, open_shape]
  by_cases same : d = c
  · simp [same]
  · simp [same]

theorem close_up (d p : Nat) :
    r'.Up all d p ↔ r.Up all d p ∨ d = c ∧ r.parentOf c = some p := by
  unfold Up
  rw [close_parentOf closes wasOpen, close_closed closes wasOpen]
  constructor
  · rintro ⟨up, every | rfl | closed⟩
    · exact .inl ⟨up, .inl every⟩
    · exact .inr ⟨rfl, up⟩
    · exact .inl ⟨up, .inr closed⟩
  · rintro (⟨up, every | closed⟩ | ⟨rfl, up⟩)
    · exact ⟨up, .inl every⟩
    · exact ⟨up, .inr (.inr closed)⟩
    · exact ⟨up, .inr (.inl rfl)⟩

theorem close_chain (nested : r.Nested) (up : Relation.ReflTransGen (r'.Up false) d s) :
    Relation.ReflTransGen (r.Up false) d s ∨
      Relation.ReflTransGen (r.Up false) d c ∧ r.parentOf c = some s := by
  induction up with
  | refl => exact .inl .refl
  | tail _ last ih =>
    rename_i y z _
    rcases ih with up | ⟨up, parent⟩
    · rcases (close_up closes wasOpen y z).mp last with last | ⟨rfl, parent⟩
      · exact .inl (up.tail last)
      · exact .inr ⟨up, parent⟩
    · have stillOpen := (nested c y parent).2 wasOpen
      have older := (nested c y parent).1
      rcases (close_up closes wasOpen y z).mp last with ⟨-, every | closed⟩ | ⟨rfl, -⟩
      · cases every
      · exact absurd closed (not_closed stillOpen)
      · exact absurd older (Nat.lt_irrefl y)

theorem close_counts_of (isCounted : r.Counts all s d) : r'.Counts all s d := by
  obtain ⟨up, own⟩ := isCounted
  refine ⟨Relation.ReflTransGen.mono (fun x y step => ?_) d s up, ?_⟩
  · exact (close_up closes wasOpen x y).mpr (.inl step)
  · exact own.imp_right fun closed => (close_closed closes wasOpen d).mpr (.inr closed)

/-- What counted for the span that closes counts for its parent, and if all descendants count,
what it recorded itself for all spans further up. -/
theorem close_counts (nested : r.Nested) (other : s ≠ c) (isOpen : r.Open s) :
    r'.Counts all s d ↔ r.Counts all s d ∨ (r.parentOf c = some s ∧ r.Counts all c d) ∨
      (all = true ∧ d = c ∧ ∃ p, r.parentOf c = some p ∧ Relation.TransGen (r.Up true) p s) := by
  constructor
  · rintro ⟨up, own⟩
    have closed : d = s ∨ d = c ∨ r.Closed d :=
      own.imp_right (close_closed closes wasOpen d).mp
    cases all with
    | false =>
      rcases close_chain closes wasOpen nested up with up | ⟨up, parent⟩
      · rcases closed with same | rfl | closed
        · exact .inl ⟨up, .inl same⟩
        · rcases Relation.ReflTransGen.cases_head up with same | ⟨x, ⟨-, every | closed⟩, -⟩
          · exact absurd same.symm other
          · cases every
          · exact absurd closed (not_closed wasOpen)
        · exact .inl ⟨up, .inr closed⟩
      · rcases closed with rfl | rfl | closed
        · exact .inl (counts_self r false d)
        · exact .inr (.inl ⟨parent, counts_self r false d⟩)
        · exact .inr (.inl ⟨parent, up, .inr closed⟩)
    | true =>
      have up : Relation.ReflTransGen (r.Up true) d s := by
        apply Relation.ReflTransGen.mono _ d s up
        intro x y step
        exact ⟨close_parentOf closes wasOpen x ▸ step.1, .inl rfl⟩
      rcases closed with same | rfl | closed
      · exact .inl ⟨up, .inl same⟩
      · rcases Relation.ReflTransGen.cases_head up with same | ⟨p, ⟨parent, -⟩, rest⟩
        · exact absurd same.symm other
        · rcases Relation.reflTransGen_iff_eq_or_transGen.mp rest with rfl | further
          · exact .inr (.inl ⟨parent, counts_self r true d⟩)
          · exact .inr (.inr ⟨rfl, rfl, p, parent, further⟩)
      · exact .inl ⟨up, .inr closed⟩
  · rintro (isCounted | ⟨parent, isCounted⟩ | ⟨rfl, rfl, p, parent, up⟩)
    · exact close_counts_of closes wasOpen isCounted
    · have first := close_counts_of closes wasOpen isCounted
      have last : r'.Up all c s := (close_up closes wasOpen c s).mpr (.inr ⟨rfl, parent⟩)
      refine ⟨first.1.tail last, ?_⟩
      rcases first.2 with rfl | closed
      · exact .inr ((close_closed closes wasOpen d).mpr (.inl rfl))
      · exact .inr closed
    · have first : r'.Up true d p := (close_up closes wasOpen d p).mpr (.inr ⟨rfl, parent⟩)
      have rest : Relation.ReflTransGen (r'.Up true) p s :=
        Relation.ReflTransGen.mono
          (fun x y step => (close_up closes wasOpen x y).mpr (.inl step)) p s up.to_reflTransGen
      exact ⟨.head first rest, .inr ((close_closed closes wasOpen d).mpr (.inl rfl))⟩

end Close

end Registry

end Mercado.Logger
