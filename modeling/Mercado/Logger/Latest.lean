import Mercado.Logger.SpanTree

/-! The latest values: what is stored in a span is what has been recorded last, in the span
itself or in the spans that it contained. -/
namespace Mercado.Logger
open Registry

structure World where
  spans : Registry := []
  /-- The latest first. -/
  recordings : List Recording := []
  /-- The values that a span was created with. -/
  inherited : Nat → String → Option Value := fun _ _ => none

inductive Action where
  | newSpan (parent : Option Nat) (fields : Fields)
  | record (id : Nat) (values : Fields)
  | enter (id now : Nat)
  | close (id now : Nat)

namespace World

/-- Spans are created in spans that are open, and closed after those they contain. -/
def step (w : World) : Action → Option World
  | .newSpan parent fields =>
    if ∀ p ∈ parent, (w.spans.span p).isSome then
      (onNewSpan fields w.spans.length (w.spans ++ [{ parent := parent }])).map fun spans =>
        { spans
          recordings := recordingsOf w.spans.length fields ++ w.recordings
          inherited := Function.update w.inherited w.spans.length fun key =>
            parent.bind (w.spans.stored · key) }
    else none
  | .record id values => (onRecord id values w.spans).map fun spans =>
    { w with spans, recordings := recordingsOf id values ++ w.recordings }
  | .enter id now => (onEnter id now w.spans).map fun spans => { w with spans }
  | .close id now =>
    if w.spans.all fun child => child.parent ≠ some id || child.closed then
      (onClose id now w.spans).map fun spans =>
        { w with spans := List.modify spans id fun span => { span with closed := true } }
    else none

inductive Reach (ok : World → Action → Prop) : World → Prop where
  | start : Reach ok {}
  | next {w w' : World} (a : Action) : Reach ok w → ok w a → w.step a = some w' → Reach ok w'

/-- What an open span holds under a persistent key is what has been recorded last, of all
that counts for it, or else what it was created with. -/
def Current (all : Bool) (w : World) : Prop :=
  ∀ s key, w.spans.Open s → key ∈ persistentKeys →
    w.spans.stored s key =
      ((latest (w.spans.CountsFor all s key) w.recordings).map (·.value)).or
        (w.inherited s key)

/-- A span that is closed holds nothing that is out of date: where a persistent key has been
recorded last outside, its parent would get the value that was recorded there. If all
descendants count, nothing is recorded last in it that a span further up does not hold. -/
def Fresh (all : Bool) (w : World) : Action → Prop
  | .close c _ => ∀ p, w.spans.parentOf c = some p → ∀ key ∈ persistentKeys,
    (∀ value, w.spans.stored c key = some value → ∀ r,
      latest (fun r => w.spans.CountsFor all p key r ∨ w.spans.CountsFor all c key r)
        w.recordings = some r →
      w.spans.CountsFor all c key r ∨ r.value = value) ∧
    (all = true → ∀ a, Relation.TransGen (w.spans.Up true) p a → ∀ r,
      latest (fun r => w.spans.CountsFor all a key r ∨ r.key = key ∧ r.span = c)
        w.recordings = some r →
      w.spans.CountsFor all a key r ∨ w.spans.stored a key = some r.value)
  | _ => True

end World

namespace World

structure Kept (w : World) : Prop where
  stores : w.spans.Stores
  nested : w.spans.Nested
  recorded : ∀ r ∈ w.recordings, r.span < w.spans.length

structure Inv (all : Bool) (w : World) : Prop extends Kept w where
  current : Current all w
  inherits : ∀ c p key, w.spans.Open c → w.spans.parentOf c = some p → key ∈ persistentKeys →
    latest (w.spans.CountsFor all p key) w.recordings = none →
    w.inherited c key = w.inherited p key

variable {all : Bool} {w w' : World}

theorem open_length {r : Registry} {s : Nat} (isOpen : r.Open s) : s < r.length := by
  obtain ⟨span, found, -⟩ := isOpen
  exact (List.getElem?_eq_some_iff.mp found).1

theorem open_of_span {r : Registry} {s : Nat} (found : (r.span s).isSome = true) : r.Open s := by
  obtain ⟨span, found⟩ := Option.isSome_iff_exists.mp found
  exact ⟨span, span_some found⟩

theorem recordingsOf_span {id : Nat} {fields : Fields} :
    ∀ r ∈ recordingsOf id fields, r.span = id := by
  intro r mem
  obtain ⟨field, -, made⟩ := List.mem_filterMap.mp (List.mem_reverse.mp mem)
  obtain ⟨key, -, rfl⟩ := Option.map_eq_some_iff.mp made
  rfl

theorem latest_recorded {r r' : Registry} {id s : Nat} {key : String} {fields : Fields}
    {old : List Recording} (isOpen : r'.Open id)
    (same : ∀ x ∈ old, r'.Counts all s x.span ↔ r.Counts all s x.span) :
    latest (r'.CountsFor all s key) (recordingsOf id fields ++ old) =
      if s = id then (latest (·.key = key) (recordingsOf id fields)).or
        (latest (r.CountsFor all s key) old)
      else latest (r.CountsFor all s key) old := by
  have before : latest (r'.CountsFor all s key) old = latest (r.CountsFor all s key) old :=
    latest_congr fun x mem => and_congr_right fun _ => same x mem
  rw [latest_append, before]
  split
  · rename_i here
    subst here
    congr 1
    apply latest_congr
    intro x mem
    rw [CountsFor, recordingsOf_span x mem]
    exact and_iff_left (counts_self r' all s)
  · rename_i other
    have none : latest (r'.CountsFor all s key) (recordingsOf id fields) = none := by
      apply latest_none.mpr
      rintro x mem ⟨-, isCounted⟩
      rw [recordingsOf_span x mem] at isCounted
      exact other ((counts_open isOpen).mp isCounted)
    rw [none, Option.none_or]

theorem inv_start (all : Bool) : Inv all {} where
  stores := nofun
  nested := nofun
  recorded := nofun
  current := by
    rintro s key ⟨span, found, -⟩
    cases found
  inherits := by
    rintro c p key ⟨span, found, -⟩
    cases found

theorem shape_length {r r' : Registry} (same : r'.shape.length = r.shape.length) :
    r'.length = r.length := by
  simpa [shape] using same

theorem shape_parentOf {r r' : Registry} (same : r'.shape = r.shape) :
    r'.parentOf = r.parentOf := by
  funext j
  rw [parentOf_shape, parentOf_shape, same]

theorem shape_nested {r r' : Registry} (same : r'.shape = r.shape) (nested : r.Nested) :
    r'.Nested := by
  intro d p parent
  rw [open_congr same, open_congr same]
  exact nested d p (shape_parentOf same ▸ parent)

theorem kept_record {id : Nat} {values : Fields} (kept : Kept w)
    (h : w.step (.record id values) = some w') : Kept w' := by
  obtain ⟨spans, recorded, rfl⟩ := Option.map_eq_some_iff.mp h
  obtain ⟨isOpen, shape, stores, -⟩ := onRecord_spec recorded
  refine ⟨stores kept.stores, shape_nested shape kept.nested, fun r mem => ?_⟩
  rw [shape_length (congrArg List.length shape)]
  rcases List.mem_append.mp mem with new | old
  · rw [recordingsOf_span r new]
    exact open_length isOpen
  · exact kept.recorded r old

theorem kept_enter {id now : Nat} (kept : Kept w) (h : w.step (.enter id now) = some w') :
    Kept w' := by
  obtain ⟨spans, entered, rfl⟩ := Option.map_eq_some_iff.mp h
  obtain ⟨shape, stores, -⟩ := onEnter_spec entered
  refine ⟨stores kept.stores, shape_nested shape kept.nested, fun r mem => ?_⟩
  rw [shape_length (congrArg List.length shape)]
  exact kept.recorded r mem

theorem kept_newSpan {parent : Option Nat} {fields : Fields} (kept : Kept w)
    (h : w.step (.newSpan parent fields) = some w') : Kept w' := by
  unfold step at h
  obtain ⟨parentOpen, h⟩ := Option.ite_none_right_eq_some.mp h
  obtain ⟨spans, created, rfl⟩ := Option.map_eq_some_iff.mp h
  obtain ⟨new, stores, -⟩ := onNewSpan_spec parentOpen created
  refine ⟨stores kept.stores, fun d p up => ?_, fun r mem => ?_⟩
  · rw [new_parentOf new] at up
    rw [new_open new, new_open new]
    split at up
    · rename_i last
      subst up
      have pOpen := open_of_span (parentOpen p rfl)
      exact ⟨last ▸ open_length pOpen, fun _ => .inr pOpen⟩
    · rename_i other
      obtain ⟨older, opens⟩ := kept.nested d p up
      exact ⟨older, fun isOpen => .inr (opens (isOpen.resolve_left other))⟩
  · rw [new_length new]
    rcases List.mem_append.mp mem with this | old
    · rw [recordingsOf_span r this]
      omega
    · have before := kept.recorded r old
      omega

theorem inv_record {id : Nat} {values : Fields} (inv : Inv all w)
    (h : w.step (.record id values) = some w') : Inv all w' := by
  obtain ⟨spans, recorded, rfl⟩ := Option.map_eq_some_iff.mp h
  obtain ⟨isOpen, shape, -, stored⟩ := onRecord_spec recorded
  have now : ∀ s key, latest (spans.CountsFor all s key) (recordingsOf id values ++ w.recordings) =
      if s = id then (latest (·.key = key) (recordingsOf id values)).or
        (latest (w.spans.CountsFor all s key) w.recordings)
      else latest (w.spans.CountsFor all s key) w.recordings := by
    intro s key
    exact latest_recorded ((open_congr shape).mpr isOpen) fun x _ => counts_congr shape
  constructor
  · exact kept_record inv.toKept h
  · intro s key isOpen' persistent
    have before := inv.current s key ((open_congr shape).mp isOpen') persistent
    simp only [stored, now]
    split
    · rename_i here
      rw [← here, before, Option.map_or, Option.or_assoc]
    · exact before
  · intro c p key isOpen' parent persistent none
    have parent := shape_parentOf shape ▸ parent
    apply inv.inherits c p key ((open_congr shape).mp isOpen') parent persistent
    simp only [now] at none
    split at none
    · exact (Option.or_eq_none_iff.mp none).2
    · exact none

theorem inv_enter {id now : Nat} (inv : Inv all w) (h : w.step (.enter id now) = some w') :
    Inv all w' := by
  obtain ⟨spans, entered, rfl⟩ := Option.map_eq_some_iff.mp h
  obtain ⟨shape, -, stored⟩ := onEnter_spec entered
  have now : ∀ s key, latest (spans.CountsFor all s key) w.recordings =
      latest (w.spans.CountsFor all s key) w.recordings := fun s key =>
    latest_congr fun x _ => and_congr_right fun _ => counts_congr shape
  constructor
  · exact kept_enter inv.toKept h
  · intro s key isOpen persistent
    simp only [stored, now]
    exact inv.current s key ((open_congr shape).mp isOpen) persistent
  · intro c p key isOpen parent persistent none
    have parent := shape_parentOf shape ▸ parent
    apply inv.inherits c p key ((open_congr shape).mp isOpen) parent persistent
    exact (now p key).symm.trans none

theorem latest_newSpan {spans : Registry} {parent : Option Nat} {fields : Fields} (kept : Kept w)
    (new : spans.shape = w.spans.shape ++ [(parent, false)]) (s : Nat) (key : String) :
    latest (spans.CountsFor all s key) (recordingsOf w.spans.length fields ++ w.recordings) =
      if s = w.spans.length then latest (·.key = key) (recordingsOf w.spans.length fields)
      else latest (w.spans.CountsFor all s key) w.recordings := by
  have isOpen : spans.Open w.spans.length := (new_open new _).mpr (.inl rfl)
  rw [latest_recorded isOpen fun x mem => new_counts new kept.nested (kept.recorded x mem)]
  split
  · rename_i last
    have none : latest (w.spans.CountsFor all s key) w.recordings = none := by
      apply latest_none.mpr
      rintro x mem ⟨-, isCounted⟩
      have inside := up_le kept.nested isCounted.1
      have before := kept.recorded x mem
      omega
    rw [none, Option.or_none]
  · rfl

theorem inv_newSpan {parent : Option Nat} {fields : Fields} (inv : Inv all w)
    (h : w.step (.newSpan parent fields) = some w') : Inv all w' := by
  have kept := kept_newSpan inv.toKept h
  unfold step at h
  obtain ⟨parentOpen, h⟩ := Option.ite_none_right_eq_some.mp h
  obtain ⟨spans, created, rfl⟩ := Option.map_eq_some_iff.mp h
  obtain ⟨new, -, stored⟩ := onNewSpan_spec parentOpen created
  have now : ∀ s key, latest (spans.CountsFor all s key)
      (recordingsOf w.spans.length fields ++ w.recordings) = _ := latest_newSpan inv.toKept new
  constructor
  · exact kept
  · intro s key isOpen' persistent
    simp only
    rw [stored, now s key]
    split
    · rename_i last
      rw [last, Function.update_self]
    · rename_i other
      rw [Function.update_of_ne other]
      exact inv.current s key (((new_open new s).mp isOpen').resolve_left other) persistent
  · intro c p key isOpen' up persistent none
    simp only at isOpen' up none ⊢
    rw [new_parentOf new] at up
    rw [now] at none
    split at up
    · rename_i last
      subst up
      have pOpen := open_of_span (parentOpen p rfl)
      have other : p ≠ w.spans.length := Nat.ne_of_lt (open_length pOpen)
      rw [if_neg other] at none
      rw [last, Function.update_self, Function.update_of_ne other, Option.bind_some,
        inv.current p key pOpen persistent, none]
      rfl
    · rename_i other
      have cOpen := ((new_open new c).mp isOpen').resolve_left other
      obtain ⟨older, opens⟩ := inv.nested c p up
      have other' : p ≠ w.spans.length := Nat.ne_of_lt (open_length (opens cOpen))
      rw [if_neg other'] at none
      rw [Function.update_of_ne other, Function.update_of_ne other']
      exact inv.inherits c p key cOpen up persistent none

theorem parent_older {r : Registry} (nested : r.Nested) {c : Nat} (p : Nat)
    (parent : r.parentOf c = some p) : p < r.length ∧ p ≠ c := by
  have older := (nested c p parent).1
  have inside : c < r.length := by
    by_contra beyond
    rw [parentOf, List.getElem?_eq_none (Nat.le_of_not_lt beyond)] at parent
    cases parent
  exact ⟨Nat.lt_trans older inside, Nat.ne_of_lt older⟩

theorem step_close {c now : Nat} (stores : w.spans.Stores) (nested : w.spans.Nested)
    (h : w.step (.close c now) = some w') :
    w.spans.Open c ∧ (∀ d, w.spans.parentOf d = some c → ¬ w.spans.Open d) ∧
      w'.recordings = w.recordings ∧ w'.inherited = w.inherited ∧
      w'.spans.shape = w.spans.shape.set c (w.spans.parentOf c, true) ∧ w'.spans.Stores ∧
      (∀ j : Nat, j ≠ c → w.spans.parentOf c ≠ some j → w'.spans[j]? = w.spans[j]?) ∧
      ∀ j key, j ≠ c → w'.spans.stored j key =
        if w.spans.parentOf c = some j ∧ key ∈ persistentKeys then
          (w.spans.stored c key).or (w.spans.stored j key)
        else w.spans.stored j key := by
  unfold step at h
  obtain ⟨children, h⟩ := Option.ite_none_right_eq_some.mp h
  obtain ⟨spans, closed, rfl⟩ := Option.map_eq_some_iff.mp h
  have done : ∀ d, w.spans.parentOf d = some c → ¬ w.spans.Open d := by
    rintro d parent ⟨span, found, isOpen⟩
    rw [parentOf, found, Option.bind_some] at parent
    have given := List.all_eq_true.mp children span (List.mem_of_getElem? found)
    simp [parent, isOpen] at given
  obtain ⟨isOpen, shape, kept, others, stored⟩ := onClose_spec stores (parent_older nested) closed
  have at' : ∀ j : Nat, j ≠ c → (List.modify spans c fun span => { span with closed := true })[j]? =
      spans[j]? := by
    intro j other
    rw [List.getElem?_modify_ne _ _ (Ne.symm other)]
  refine ⟨isOpen, done, rfl, rfl, ?_, kept.modify fun _ storage => storage, ?_, ?_⟩
  · apply List.ext_getElem?
    intro j
    rw [← shape, List.getElem?_set, Registry.shape, Registry.shape, List.getElem?_map,
      List.getElem?_map, List.getElem?_modify, List.length_map]
    by_cases here : c = j
    · subst here
      have same : Registry.parentOf spans c = w.spans.parentOf c := by
        rw [parentOf_shape, parentOf_shape, shape]
      have inside : c < spans.length := open_length ((open_congr shape).mpr isOpen)
      rw [parentOf, List.getElem?_eq_getElem inside, Option.bind_some] at same
      simp [inside, same]
    · simp [here]
  · intro j other notUp
    exact (at' j other).trans (others j other notUp)
  · intro j key other
    rw [Registry.stored, at' j other]
    exact stored j key other

theorem close_parent {c p : Nat} {key : String} (inv : Inv all w) (now : Nat)
    (fresh : Fresh all w (.close c now)) (isOpen : w.spans.Open c)
    (parent : w.spans.parentOf c = some p) (persistent : key ∈ persistentKeys) :
    (w.spans.stored c key).or (w.spans.stored p key) =
      ((latest (fun r => w.spans.CountsFor all p key r ∨ w.spans.CountsFor all c key r)
        w.recordings).map (·.value)).or (w.inherited p key) := by
  have pOpen := (inv.nested c p parent).2 isOpen
  have child := inv.current c key isOpen persistent
  have own := inv.current p key pOpen persistent
  have fresh := (fresh p parent key persistent).1
  cases held : w.spans.stored c key with
  | none =>
    have nothing : latest (w.spans.CountsFor all c key) w.recordings = none := by
      cases last : latest (w.spans.CountsFor all c key) w.recordings with
      | none => rfl
      | some r =>
        rw [held, last] at child
        cases child
    have same : latest (fun r => w.spans.CountsFor all p key r ∨ w.spans.CountsFor all c key r)
        w.recordings = latest (w.spans.CountsFor all p key) w.recordings :=
      latest_congr fun r mem => or_iff_left (latest_none.mp nothing r mem)
    rw [same, Option.none_or, own]
  | some value =>
    rw [Option.some_or]
    cases last : latest (fun r => w.spans.CountsFor all p key r ∨ w.spans.CountsFor all c key r)
        w.recordings with
    | none =>
      -- nothing has been recorded since either of the two was created
      have neither := latest_none.mp last
      have noneHere : latest (w.spans.CountsFor all c key) w.recordings = none :=
        latest_none.mpr fun r mem own => neither r mem (.inr own)
      have noneThere : latest (w.spans.CountsFor all p key) w.recordings = none :=
        latest_none.mpr fun r mem own => neither r mem (.inl own)
      rw [held, noneHere, inv.inherits c p key isOpen parent persistent noneThere] at child
      exact child
    | some r =>
      rcases fresh value held r last with inChild | same
      · have lastHere : latest (w.spans.CountsFor all c key) w.recordings = some r := by
          simp only [or_comm] at last
          exact latest_of_or last inChild
        rw [held, lastHere] at child
        exact child
      · rw [← same]
        rfl

theorem close_ancestor {c p s : Nat} {key : String} (inv : Inv true w) (now : Nat)
    (fresh : Fresh true w (.close c now)) (parent : w.spans.parentOf c = some p)
    (up : Relation.TransGen (w.spans.Up true) p s) (isOpen : w.spans.Open s)
    (persistent : key ∈ persistentKeys) :
    w.spans.stored s key =
      ((latest (fun r => w.spans.CountsFor true s key r ∨ r.key = key ∧ r.span = c)
        w.recordings).map (·.value)).or (w.inherited s key) := by
  have own := inv.current s key isOpen persistent
  have fresh := (fresh p parent key persistent).2 rfl s up
  cases last : latest (fun r => w.spans.CountsFor true s key r ∨ r.key = key ∧ r.span = c)
      w.recordings with
  | none =>
    have neither := latest_none.mp last
    have nothing : latest (w.spans.CountsFor true s key) w.recordings = none :=
      latest_none.mpr fun r mem own => neither r mem (.inl own)
    rw [nothing] at own
    exact own
  | some r =>
    rcases fresh r last with counted | same
    · rw [latest_of_or last counted] at own
      exact own
    · rw [same]
      rfl

theorem kept_close {c now : Nat} (kept : Kept w) (h : w.step (.close c now) = some w') :
    Kept w' := by
  obtain ⟨wasOpen, done, recordings, -, closes, stores, -, -⟩ :=
    step_close kept.stores kept.nested h
  refine ⟨stores, fun d p parent => ?_, fun r mem => ?_⟩
  · rw [close_parentOf closes wasOpen] at parent
    obtain ⟨older, opens⟩ := kept.nested d p parent
    rw [close_open closes wasOpen, close_open closes wasOpen]
    refine ⟨older, fun isOpen => ⟨?_, opens isOpen.2⟩⟩
    rintro rfl
    exact done d parent isOpen.2
  · have length : w'.spans.length = w.spans.length :=
      shape_length (by rw [closes, List.length_set])
    rw [length]
    exact kept.recorded r (recordings ▸ mem)

theorem inv_close {c now : Nat} (inv : Inv all w) (fresh : Fresh all w (.close c now))
    (h : w.step (.close c now) = some w') : Inv all w' := by
  obtain ⟨wasOpen, -, recordings, inherited, closes, -, -, stored⟩ :=
    step_close inv.stores inv.nested h
  constructor
  · exact kept_close inv.toKept h
  · intro s key isOpen persistent
    obtain ⟨other, isOpen⟩ := (close_open closes wasOpen s).mp isOpen
    have counts : ∀ r : Recording, w'.spans.Counts all s r.span ↔ _ := fun r =>
      close_counts closes wasOpen inv.nested other isOpen
    rw [stored s key other, recordings, inherited]
    by_cases parent : w.spans.parentOf c = some s
    · rw [if_pos ⟨parent, persistent⟩, close_parent inv now fresh wasOpen parent persistent]
      congr 2
      apply latest_congr
      intro r _
      have notBelow : ¬ (all = true ∧ r.span = c ∧ ∃ p, w.spans.parentOf c = some p ∧
          Relation.TransGen (w.spans.Up true) p s) := by
        rintro ⟨-, -, p, parent', up⟩
        cases parent.symm.trans parent'
        exact absurd (up_lt inv.nested up) (Nat.lt_irrefl s)
      unfold CountsFor
      rw [counts r, or_iff_left notBelow, and_iff_right parent, and_or_left]
    · rw [if_neg fun both => parent both.1]
      by_cases further : all = true ∧ ∃ p, w.spans.parentOf c = some p ∧
          Relation.TransGen (w.spans.Up true) p s
      · obtain ⟨rfl, p, parent', up⟩ := further
        rw [close_ancestor inv now fresh parent' up isOpen persistent]
        congr 2
        apply latest_congr
        intro r _
        have above : ∃ p, w.spans.parentOf c = some p ∧
          Relation.TransGen (w.spans.Up true) p s := ⟨p, parent', up⟩
        unfold CountsFor
        rw [counts r]
        simp only [parent, above, false_and, false_or, true_and, and_true, and_or_left]
      · rw [inv.current s key isOpen persistent]
        congr 2
        apply latest_congr
        intro r _
        have elsewhere : ¬ (all = true ∧ r.span = c ∧ ∃ p, w.spans.parentOf c = some p ∧
            Relation.TransGen (w.spans.Up true) p s) := fun h => further ⟨h.1, h.2.2⟩
        unfold CountsFor
        rw [counts r]
        simp only [parent, elsewhere, false_and, or_false]
  · intro d p key isOpen parent persistent none
    rw [inherited]
    rw [close_parentOf closes wasOpen] at parent
    apply inv.inherits d p key ((close_open closes wasOpen d).mp isOpen).2 parent persistent
    apply latest_none.mpr
    intro r mem isCounted
    rw [recordings] at none
    exact latest_none.mp none r mem
      ⟨isCounted.1, close_counts_of closes wasOpen isCounted.2⟩

theorem inv_reach (h : Reach (Fresh all) w) : Inv all w := by
  induction h with
  | start => exact inv_start all
  | next a _ fresh step ih =>
    cases a with
    | newSpan parent fields => exact inv_newSpan ih step
    | record id values => exact inv_record ih step
    | enter id now => exact inv_enter ih step
    | close id now => exact inv_close ih fresh step

theorem kept_reach {ok : World → Action → Prop} (h : Reach ok w) : Kept w := by
  induction h with
  | start => exact (inv_start true).toKept
  | next a _ _ step ih =>
    cases a with
    | newSpan parent fields => exact kept_newSpan ih step
    | record id values => exact kept_record ih step
    | enter id now => exact kept_enter ih step
    | close id now => exact kept_close ih step

/-- Persistent values are the latest ones in every run that hands up nothing out of date, with
either reading of which spans count. Whatever is handed up, nothing else changes. -/
theorem storage_keeps_latest (all : Bool) (w : World) :
    (Reach (Fresh all) w → Current all w) ∧
    (Reach (fun _ _ => True) w → ∀ c now w', w.step (.close c now) = some w' →
      (∀ p key, w.spans.parentOf c = some p →
        key ∉ persistentKeys ∨ w.spans.stored c key = none →
        w'.spans.stored p key = w.spans.stored p key) ∧
      ∀ j : Nat, j ≠ c → w.spans.parentOf c ≠ some j → w'.spans[j]? = w.spans[j]?) := by
  refine ⟨fun h => (inv_reach h).current, fun h c now w' step => ?_⟩
  have kept := kept_reach h
  obtain ⟨wasOpen, -, -, -, -, -, others, stored⟩ := step_close kept.stores kept.nested step
  refine ⟨?_, others⟩
  intro p key parent unheld
  have other : p ≠ c := Nat.ne_of_lt (kept.nested c p parent).1
  rw [stored p key other]
  rcases unheld with passing | none
  · rw [if_neg fun both => passing both.2]
  · rw [none, Option.none_or, ite_self]

def run (w : World) : List Action → Option World
  | [] => some w
  | a :: as => (w.step a).bind fun w' => w'.run as

theorem reach_run {as : List Action} (h : Reach (fun _ _ => True) w) (ran : w.run as = some w') :
    Reach (fun _ _ => True) w' := by
  induction as generalizing w with
  | nil =>
    cases ran
    exact h
  | cons a as ih =>
    obtain ⟨m, step, rest⟩ := Option.bind_eq_some_iff.mp ran
    exact ih (.next a h trivial step) rest

/-- A child that has inherited the flow, and a later one on its parent. -/
theorem child_reverts_parent : ¬ ∀ all w, Reach (fun _ _ => True) w → Current all w := by
  intro h
  let as : List Action := [.newSpan none [("flow", .str "PaymentsCreate")], .newSpan (some 0) [],
    .record 0 [("flow", .str "PaymentsConfirm")], .close 1 0]
  obtain ⟨w, ran⟩ : ∃ w, World.run {} as = some w := Option.isSome_iff_exists.mp rfl
  have stored : (World.run {} as).map (·.spans.stored 0 "flow") =
      some (some (.string "PaymentsCreate")) := rfl
  have recordings : (World.run {} as).map (·.recordings) =
      some [⟨0, "flow", .string "PaymentsConfirm"⟩, ⟨0, "flow", .string "PaymentsCreate"⟩] := rfl
  have isOpen : (World.run {} as).map (·.spans.span 0 |>.isSome) = some true := rfl
  rw [ran] at stored recordings isOpen
  have stored : w.spans.stored 0 "flow" = some (.string "PaymentsCreate") :=
    Option.some.inj stored
  have recordings : w.recordings = [⟨0, "flow", .string "PaymentsConfirm"⟩,
      ⟨0, "flow", .string "PaymentsCreate"⟩] := Option.some.inj recordings
  obtain ⟨span, isSpan⟩ := Option.isSome_iff_exists.mp (Option.some.inj isOpen)
  have current := h false w (reach_run .start ran) 0 "flow" ⟨span, span_some isSpan⟩ (by decide)
  have counts : w.spans.CountsFor false 0 "flow" ⟨0, "flow", .string "PaymentsConfirm"⟩ :=
    ⟨rfl, counts_self w.spans false 0⟩
  have last : latest (w.spans.CountsFor false 0 "flow") w.recordings =
      some ⟨0, "flow", .string "PaymentsConfirm"⟩ := by
    rw [recordings, latest, List.find?_cons_of_pos (by simpa using counts)]
  rw [stored, last] at current
  have same : "PaymentsCreate" = "PaymentsConfirm" :=
    Value.string.inj (Option.some.inj current)
  exact absurd same (by decide)

end World

end Mercado.Logger
