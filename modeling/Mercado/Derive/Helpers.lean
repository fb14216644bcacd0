import Mercado.Derive.Syntax
import Mercado.Results

/-! The functions that the macros share. -/
namespace Mercado.Derive
open Results

def nonEnumError : SynError := .messages ["This macro only supports enums."]

def occurrenceError (attr : String) : SynError :=
  .messages ["Found multiple occurrences of error(" ++ attr ++ ")", "first one here"]

def getMetadataInner {T : Type} [Parse T] (ident : String) (attrs : List Attribute) :
    Except SynError (List T) :=
  (attrs.filter fun attr => attr.path = ident).foldlM
    (fun vec attr => do return vec ++ (← attr.parseArgsTerminated)) []

def getStructFields : Data → Except SynError FieldsNamed
  | .struct (.named named) => .ok named
  | _ => .error (.messages ["This macro cannot be used on structs with no fields"])

/- The values that are read. -/

section Related

variable {α β : Type} {R : α → List β → Prop} {xs : List α}

theorem exists_forall₂_iff : (∃ lists, List.Forall₂ R xs lists) ↔ ∀ x ∈ xs, ∃ ys, R x ys := by
  induction xs with
  | nil => exact iff_of_true ⟨[], .nil⟩ (fun x mem => absurd mem List.not_mem_nil)
  | cons x xs ih =>
    rw [List.forall_mem_cons, ← ih]
    constructor
    · rintro ⟨lists, related⟩
      cases related with
      | cons first rest => exact ⟨⟨_, first⟩, _, rest⟩
    · rintro ⟨⟨ys, first⟩, lists, rest⟩
      exact ⟨ys :: lists, .cons first rest⟩

theorem mem_flatten_iff (unique : ∀ x ys zs, R x ys → R x zs → ys = zs) {lists : List (List β)}
    (related : List.Forall₂ R xs lists) (y : β) :
    y ∈ lists.flatten ↔ ∃ x ∈ xs, ∃ ys, R x ys ∧ y ∈ ys := by
  induction related with
  | nil =>
    apply iff_of_false List.not_mem_nil
    rintro ⟨x, mem, _⟩
    exact List.not_mem_nil mem
  | @cons x ys xs lists first rest ih =>
    rw [List.flatten_cons, List.mem_append, ih, List.exists_mem_cons_iff]
    apply or_congr_left
    constructor
    · exact fun mem => ⟨ys, first, mem⟩
    · rintro ⟨zs, other, mem⟩
      exact unique x zs ys other first ▸ mem

end Related

variable {T : Type} [LawfulParse T]

theorem reads_unique {attr : Attribute} {values values' : List T} (reads : attr.Reads values)
    (reads' : attr.Reads values') : values = values' :=
  Except.ok.inj ((parseArgsTerminated_ok_iff.mpr reads).symm.trans
    (parseArgsTerminated_ok_iff.mpr reads'))

theorem foldlM_parseArgs_ok_iff {attrs : List Attribute} {front values : List T} :
    attrs.foldlM (fun vec attr => do return vec ++ (← attr.parseArgsTerminated)) front =
        (.ok values : Except SynError (List T)) ↔
      ∃ lists, List.Forall₂ Attribute.Reads attrs lists ∧ values = front ++ lists.flatten := by
  induction attrs generalizing front with
  | nil =>
    rw [List.foldlM_nil]
    constructor
    · intro done
      cases done
      exact ⟨[], .nil, (List.append_nil _).symm⟩
    · rintro ⟨lists, none, rfl⟩
      cases none
      exact congrArg Except.ok (List.append_nil _).symm
  | cons attr attrs ih =>
    rw [List.foldlM_cons, bind_ok]
    constructor
    · rintro ⟨next, parsed, rest⟩
      obtain ⟨values', read, same⟩ := bind_ok.mp parsed
      cases same
      obtain ⟨lists, reads, rfl⟩ := ih.mp rest
      refine ⟨values' :: lists, .cons (parseArgsTerminated_ok_iff.mp read) reads, ?_⟩
      rw [List.flatten_cons, List.append_assoc]
    · rintro ⟨lists, reads, rfl⟩
      cases reads with
      | @cons _ values' _ lists reading reads =>
        have parsed := parseArgsTerminated_ok_iff.mpr reading
        refine ⟨front ++ values', bind_ok.mpr ⟨values', parsed, rfl⟩, ih.mpr ⟨lists, reads, ?_⟩⟩
        rw [List.flatten_cons, List.append_assoc]

theorem getMetadataInner_ok_iff {ident : String} {attrs : List Attribute} {values : List T} :
    getMetadataInner ident attrs = .ok values ↔
      ∃ lists, List.Forall₂ Attribute.Reads (attrs.filter fun attr => attr.path = ident) lists ∧
        values = lists.flatten := foldlM_parseArgs_ok_iff

theorem getMetadataInner_reads {ident : String} {attrs : List Attribute} :
    (∃ values : List T, getMetadataInner ident attrs = .ok values) ↔
      ∀ attr ∈ attrs, attr.path = ident → ∃ values : List T, attr.Reads values := by
  have filtered : (∀ attr ∈ attrs, attr.path = ident → ∃ values : List T, attr.Reads values) ↔
      ∀ attr ∈ attrs.filter fun attr => attr.path = ident, ∃ values : List T,
        attr.Reads values := by
    simp only [List.mem_filter, decide_eq_true_eq, and_imp]
  rw [filtered, ← exists_forall₂_iff]
  simp only [getMetadataInner_ok_iff]
  constructor
  · rintro ⟨values, lists, related, _⟩
    exact ⟨lists, related⟩
  · rintro ⟨lists, related⟩
    exact ⟨_, lists, related, rfl⟩

theorem mem_getMetadataInner {ident : String} {attrs : List Attribute} {values : List T}
    (read : getMetadataInner ident attrs = .ok values) (value : T) :
    value ∈ values ↔ ∃ attr ∈ attrs, attr.path = ident ∧
      ∃ listed, attr.Reads listed ∧ value ∈ listed := by
  obtain ⟨lists, related, rfl⟩ := getMetadataInner_ok_iff.mp read
  rw [mem_flatten_iff (R := Attribute.Reads) (fun _ _ _ => reads_unique) related]
  simp only [List.mem_filter, decide_eq_true_eq, and_assoc]

end Mercado.Derive
