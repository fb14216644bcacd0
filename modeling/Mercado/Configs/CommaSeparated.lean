import Mathlib.Data.Finset.Card
import Mercado.Configs.Validation

/-! Sets that the configuration gives as a text with commas. A text is cut at its commas, and
each piece is parsed. -/
namespace Mercado.Configs
open Text

/-- Types with a `FromStr`. The error is the text that it is displayed as. -/
class FromStr (T : Type) where
  typeName : String
  fromStr : String → Except String T

instance : FromStr String := ⟨"alloc::string::String", .ok⟩

variable {T : Type} [DecidableEq T] [FromStr T]

def pieces (value : String) : List String :=
  ((trim value).toList.splitOn ',').map fun s => trim (.ofList s)

def parsePiece (s : String) : Except String T :=
  (FromStr.fromStr s).mapError fun error =>
    "Unable to deserialize `" ++ s ++ "` as `" ++ FromStr.typeName T ++ "`: " ++ error

/-- One turn of the fold, over the values and the errors so far. -/
def gather : Finset T × List String → Except String T → Finset T × List String
  | (values, errors), .ok t => (insert t values, errors)
  | (values, errors), .error error => (values, errors ++ [error])

def deserializeHashsetInner (value : String) : Except String (Finset T) :=
  let (values, errors) := ((pieces value).map parsePiece).foldl gather (∅, [])
  if errors ≠ [] then .error ("Some errors occurred:\n" ++ "\n".intercalate errors)
  else .ok values

def deserializeHashset (value : String) : Except String (Finset T) := deserializeHashsetInner value

def deserializeOptionalHashset (value : Option String) : Except String (Option (Finset T)) :=
  match value with
  | none => .ok none
  | some inner => do
    let list ← deserializeHashsetInner inner
    match list.card with
    | 0 => return none
    | _ => return some list

/- What the fold gathers. -/

def errorOf : Except String T → Option String
  | .ok _ => none
  | .error error => some error

omit [FromStr T] in
theorem foldl_gather (results : List (Except String T)) (values : Finset T)
    (errors : List String) : results.foldl gather (values, errors) =
      (values ∪ (results.filterMap Except.toOption).toFinset,
        errors ++ results.filterMap errorOf) := by
  induction results generalizing values errors with
  | nil => simp
  | cons r results ih =>
    cases r with
    | ok t =>
      have union : insert t values ∪ (results.filterMap Except.toOption).toFinset =
          values ∪ insert t (results.filterMap Except.toOption).toFinset := by
        rw [Finset.insert_union, Finset.union_insert]
      rw [List.foldl_cons, gather, ih, union]
      simp [errorOf, Except.toOption, List.filterMap_cons]
    | error e =>
      rw [List.foldl_cons, gather, ih, List.append_assoc]
      simp [errorOf, Except.toOption, List.filterMap_cons]

def Fails (T : Type) [FromStr T] (s : String) : Prop :=
  ∃ error, (FromStr.fromStr s : Except String T) = .error error

omit [DecidableEq T] in
theorem errors_nil_iff (ss : List String) :
    ((ss.map parsePiece : List (Except String T)).filterMap errorOf = []) ↔
      ∀ s ∈ ss, ¬ Fails T s := by
  rw [List.filterMap_eq_nil_iff, List.forall_mem_map]
  refine forall₂_congr fun s _ => ?_
  unfold Fails parsePiece
  cases (FromStr.fromStr s : Except String T) with
  | ok t =>
    refine iff_of_true rfl ?_
    rintro ⟨_, ⟨⟩⟩
  | error e => exact iff_of_false (fun same => by cases same) fun none => none ⟨e, rfl⟩

theorem deserializeHashset_eq (value : String) :
    (deserializeHashset value : Except String (Finset T)) =
      if ((pieces value).map parsePiece : List (Except String T)).filterMap errorOf ≠ [] then
        .error ("Some errors occurred:\n" ++ "\n".intercalate
          (((pieces value).map parsePiece : List (Except String T)).filterMap errorOf))
      else .ok (((pieces value).map parsePiece).filterMap Except.toOption).toFinset := by
  rw [deserializeHashset, deserializeHashsetInner, foldl_gather, Finset.empty_union,
    List.nil_append]

theorem deserializeHashset_error_iff (value : String) :
    (∃ e, (deserializeHashset value : Except String (Finset T)) = .error e) ↔
      ∃ s ∈ pieces value, Fails T s := by
  have errors := @errors_nil_iff T _ (pieces value)
  rw [deserializeHashset_eq]
  by_cases none : ((pieces value).map parsePiece : List (Except String T)).filterMap errorOf = []
  · rw [if_neg (not_not.mpr none)]
    refine iff_of_false ?_ fun ⟨s, mem, fails⟩ => errors.mp none s mem fails
    rintro ⟨_, ⟨⟩⟩
  · rw [if_pos none]
    refine iff_of_true ⟨_, rfl⟩ (by_contra fun all => ?_)
    exact none (errors.mpr fun s mem fails => all ⟨s, mem, fails⟩)

theorem deserializeHashset_string (value : String) :
    (deserializeHashset value : Except String (Finset String)) = .ok (pieces value).toFinset := by
  have none := (@errors_nil_iff String _ (pieces value)).mpr fun s _ fails => by
    obtain ⟨_, ⟨⟩⟩ := fails
  have parsed : ((pieces value).map parsePiece).filterMap Except.toOption = pieces value := by
    rw [List.filterMap_map]
    exact List.filterMap_some
  rw [deserializeHashset_eq, if_neg (not_not.mpr none), parsed]

/- Joining. -/

structure Padded where
  before : List Char
  piece : List Char
  after : List Char
  blankBefore : ∀ c ∈ before, isWhitespace c
  blankAfter : ∀ c ∈ after, isWhitespace c
  nonempty : piece ≠ []
  trimmed : trimBy isWhitespace piece = piece
  noComma : ',' ∉ piece

def Padded.text (x : Padded) : List Char := x.before ++ x.piece ++ x.after

def members (items : List Padded) : Finset String :=
  (items.map fun x => String.ofList x.piece).toFinset

def joined (lead : List Char) (items : List Padded) (trail : List Char) : String :=
  .ofList (lead ++ [','].intercalate (items.map Padded.text) ++ trail)

theorem isWhitespace_comma : isWhitespace ',' = false := by decide

theorem not_mem_of_blank {a : List Char} (blank : ∀ c ∈ a, isWhitespace c) : ',' ∉ a := fun mem =>
  Bool.false_ne_true (isWhitespace_comma.symm.trans (blank _ mem))

theorem Padded.text_noComma (x : Padded) : ',' ∉ x.text := by
  simp only [Padded.text, List.mem_append, not_or]
  exact ⟨⟨not_mem_of_blank x.blankBefore, x.noComma⟩, not_mem_of_blank x.blankAfter⟩

theorem Padded.trim_text (x : Padded) : trimBy isWhitespace x.text = x.piece := by
  rw [Padded.text, trimBy_append_right x.blankAfter, trimBy_append_left x.blankBefore, x.trimmed]

theorem trim_piece {value piece : String} (mem : piece ∈ pieces value) : trim piece = piece := by
  obtain ⟨s, -, rfl⟩ := List.mem_map.mp mem
  rw [trim, trim, String.toList_ofList, String.toList_ofList, trimBy_trimBy]

theorem pieces_eq (value : String) : pieces value =
    ((value.toList.splitOn ',').map (trimBy isWhitespace)).map String.ofList := by
  rw [← trimmed_pieces isWhitespace_comma, pieces, trim, String.toList_ofList, List.map_map]
  simp only [trim, String.toList_ofList]
  rfl

variable {lead trail : List Char}

theorem pieces_joined (blankLead : ∀ c ∈ lead, isWhitespace c)
    (blankTrail : ∀ c ∈ trail, isWhitespace c) {items : List Padded} (some : items ≠ []) :
    pieces (joined lead items trail) = items.map fun x => String.ofList x.piece := by
  have split : ([','].intercalate (items.map Padded.text)).splitOn ',' =
      items.map Padded.text := by
    refine List.splitOn_intercalate _ (fun l mem => ?_) (by simpa using some)
    obtain ⟨x, -, rfl⟩ := List.mem_map.mp mem
    exact x.text_noComma
  rw [pieces_eq, joined, String.toList_ofList, ← trimmed_pieces isWhitespace_comma,
    trimBy_append_right blankTrail, trimBy_append_left blankLead,
    trimmed_pieces isWhitespace_comma, split, List.map_map, List.map_map]
  refine List.map_congr_left fun x _ => ?_
  exact congrArg String.ofList x.trim_text

theorem pieces_joined_nil (blankLead : ∀ c ∈ lead, isWhitespace c)
    (blankTrail : ∀ c ∈ trail, isWhitespace c) : pieces (joined lead [] trail) = [""] := by
  rw [pieces_eq, joined, String.toList_ofList, ← trimmed_pieces isWhitespace_comma,
    trimBy_append_right blankTrail, trimBy_append_left blankLead]
  rfl

/-- The set comes back, and an empty one is none. -/
structure RoundTrips (lead : List Char) (items : List Padded) (trail : List Char) : Prop where
  set : deserializeHashset (joined lead items trail) = .ok (members items)
  optional : deserializeOptionalHashset (some (joined lead items trail)) =
    .ok (if members items = ∅ then none else some (members items))

theorem deserializeOptionalHashset_string (value : String) :
    deserializeOptionalHashset (some value) =
      .ok (if (pieces value).toFinset = ∅ then none else some (pieces value).toFinset) := by
  have inner := deserializeHashset_string value
  rw [deserializeHashset] at inner
  rw [deserializeOptionalHashset, inner]
  simp only [bind, Except.bind]
  cases card : (pieces value).toFinset.card with
  | zero =>
    rw [if_pos (Finset.card_eq_zero.mp card)]
    rfl
  | succ n =>
    have some : (pieces value).toFinset ≠ ∅ := by
      intro none
      rw [none] at card
      cases card
    rw [if_neg some]
    rfl

theorem roundTrips_iff (blankLead : ∀ c ∈ lead, isWhitespace c)
    (blankTrail : ∀ c ∈ trail, isWhitespace c) (items : List Padded) :
    RoundTrips lead items trail ↔ items ≠ [] := by
  constructor
  · rintro ⟨set, -⟩ rfl
    rw [deserializeHashset_string, pieces_joined_nil blankLead blankTrail] at set
    exact absurd (Except.ok.inj set) (by decide)
  · intro some
    have same : (pieces (joined lead items trail)).toFinset = members items := by
      rw [pieces_joined blankLead blankTrail some, members]
    refine ⟨?_, ?_⟩
    · rw [deserializeHashset_string, same]
    · rw [deserializeOptionalHashset_string, same]

/- The settings for cross-origin requests. -/

/-- What the configuration says; the origins and the wildcard have defaults. -/
structure CorsConfig where
  origins : Option String
  wildcardOrigin : Option Bool
  maxAge : Nat
  allowedMethods : String

structure CorsSettings where
  origins : Finset String
  wildcardOrigin : Bool
  maxAge : Nat
  allowedMethods : Finset String

namespace CorsSettings

def deserialize (c : CorsConfig) : Except String CorsSettings := do
  let origins ← match c.origins with
    | none => .ok ∅
    | some origins => deserializeHashset origins
  let allowedMethods ← deserializeHashset c.allowedMethods
  return {
    origins
    wildcardOrigin := c.wildcardOrigin.getD false
    maxAge := c.maxAge
    allowedMethods }

def validate (s : CorsSettings) : Except ApplicationError Unit := do
  when (s.wildcardOrigin && !decide (s.origins = ∅)) (.error (.invalidConfigurationValueError
    "Allowed Origins must be empty when wildcard origin is true"))
  when (!s.wildcardOrigin && decide (s.origins = ∅)) (.error (.invalidConfigurationValueError
    ("Allowed origins must not be empty. " ++
      "Please either enable wildcard origin or provide Allowed Origin")))

end CorsSettings

def CorsConfig.BlankOrigins (c : CorsConfig) : Prop :=
  ∃ text, c.origins = some text ∧ ∀ piece ∈ pieces text, piece = ""

/-- Without the wildcard, settings are not accepted if the list of origins is blank. -/
def RefusesBlank (c : CorsConfig) : Prop :=
  ∀ s, CorsSettings.deserialize c = .ok s → s.validate = .ok () →
    ¬ (s.wildcardOrigin = false ∧ c.BlankOrigins)

theorem refusesBlank_iff (c : CorsConfig) :
    RefusesBlank c ↔ ¬ (c.wildcardOrigin.getD false = false ∧ c.BlankOrigins) := by
  constructor
  · rintro refuses ⟨strict, text, configured, blank⟩
    have origins : (pieces text).toFinset ≠ ∅ := by
      rw [ne_eq, List.toFinset_eq_empty_iff, pieces, List.map_eq_nil_iff]
      exact List.splitOn_ne_nil _ _
    refine refuses ⟨(pieces text).toFinset, c.wildcardOrigin.getD false, c.maxAge,
      (pieces c.allowedMethods).toFinset⟩ ?_ ?_ ⟨strict, text, configured, blank⟩
    · rw [CorsSettings.deserialize, configured]
      simp only [deserializeHashset_string, bind, Except.bind]
      rfl
    · rw [CorsSettings.validate, when_bind_ok, when_ok]
      simp [strict, origins]
  · rintro allowed s read - ⟨strict, blank⟩
    refine allowed ⟨?_, blank⟩
    obtain ⟨text, configured, -⟩ := blank
    rw [CorsSettings.deserialize, configured] at read
    simp only [deserializeHashset_string, bind, Except.bind] at read
    cases read
    exact strict

/-- What goes wrong is one thing: an empty piece is parsed like any other. So the empty set
does not come back, and a blank piece is a member or an error. -/
theorem comma_separated_exact (T : Type) [DecidableEq T] [FromStr T] (text : String)
    (config : CorsConfig) :
    (∀ lead trail, (∀ c ∈ lead, isWhitespace c) → (∀ c ∈ trail, isWhitespace c) →
      ∀ items, RoundTrips lead items trail ↔ items ≠ []) ∧
    ((∀ set : Finset String, deserializeHashset text = .ok set → ∀ m ∈ set, trim m ≠ "") ↔
      "" ∉ pieces text) ∧
    (((∃ e, (deserializeHashset text : Except String (Finset T)) = .error e) ↔
        ∃ piece ∈ pieces text, piece ≠ "" ∧ Fails T piece) ↔
      (∃ piece ∈ pieces text, piece ≠ "" ∧ Fails T piece) ∨ "" ∉ pieces text ∨ ¬ Fails T "") ∧
    (RefusesBlank config ↔
      ¬ (config.wildcardOrigin.getD false = false ∧ config.BlankOrigins)) := by
  refine ⟨fun lead trail blankLead blankTrail items => roundTrips_iff blankLead blankTrail items,
    ?_, ?_, refusesBlank_iff config⟩
  · rw [deserializeHashset_string]
    constructor
    · intro unblank blank
      exact unblank _ rfl "" (List.mem_toFinset.mpr blank) (by decide)
    · rintro unblank _ ⟨⟩ m mem
      have piece := List.mem_toFinset.mp mem
      rw [trim_piece piece]
      rintro rfl
      exact unblank piece
  · rw [deserializeHashset_error_iff]
    have blank : (∃ piece ∈ pieces text, Fails T piece) ↔
        (∃ piece ∈ pieces text, piece ≠ "" ∧ Fails T piece) ∨ "" ∈ pieces text ∧ Fails T "" := by
      constructor
      · rintro ⟨piece, mem, fails⟩
        by_cases empty : piece = ""
        · exact .inr ⟨empty ▸ mem, empty ▸ fails⟩
        · exact .inl ⟨piece, mem, empty, fails⟩
      · rintro (⟨piece, mem, -, fails⟩ | ⟨mem, fails⟩)
        · exact ⟨piece, mem, fails⟩
        · exact ⟨"", mem, fails⟩
    rw [blank, or_iff_left_iff_imp, imp_iff_not_or, not_and_or, or_comm]

/-- The empty text is a set with the empty string, and a list of origins that is accepted. -/
theorem empty_text_member :
    (deserializeHashset "" : Except String (Finset String)) ≠ .ok ∅ ∧
      ¬ RefusesBlank ⟨some "", none, 30, "GET"⟩ := by
  refine ⟨by decide, fun refuses => ?_⟩
  exact (refusesBlank_iff _).mp refuses ⟨rfl, "", rfl, by decide⟩

end Mercado.Configs
