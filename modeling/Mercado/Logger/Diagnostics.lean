import Mercado.Logger.LogLine

/-! Logging while formatting. What the formatter logs about reserved keys is an event as any
other, and is formatted by the same layer, in the same span, before it goes on. -/
namespace Mercado.Logger

def gather {α : Type} : List (Option (List α)) → Option (List α)
  | [] => some []
  | x :: xs => do
    let first ← x
    let rest ← gather xs
    return first ++ rest

theorem gather_isSome {α : Type} {l : List (Option (List α))} :
    (gather l).isSome = true ↔ ∀ x ∈ l, x.isSome = true := by
  induction l with
  | nil => exact iff_of_true rfl nofun
  | cons x l ih =>
    rw [List.forall_mem_cons, ← ih]
    cases x with
    | none => simp [gather]
    | some first => cases rest : gather l <;> simp [gather, rest]

namespace FormattingLayer

section

variable (layer : FormattingLayer) (f : Features) (toUppercase : String → String)
  (now : Event → Option String) (enabled : Level → Bool) (span : Option SpanRef)

/-- `on_event`, with events inside each other to this depth: the lines in the order in which
they are flushed, each with its event. -/
def onEvent : Nat → Event → Option (List (Event × List (String × Value)))
  | 0, _ => none
  | depth + 1, event =>
    let s := layer.eventSerialize f toUppercase span event (now event)
    let dispatched := s.diagnostics.filter fun d => enabled d.metadata.level
    (gather (dispatched.map (onEvent depth))).map (· ++ [(event, s.entries)])

def Ends (event : Event) : Prop :=
  ∃ depth, (layer.onEvent f toUppercase now enabled span depth event).isSome = true

end

variable {layer : FormattingLayer} {f : Features} {toUppercase : String → String}
  {now : Event → Option String} {enabled : Level → Bool} {span : Option SpanRef} {event : Event}

theorem onEvent_isSome {depth : Nat} :
    (layer.onEvent f toUppercase now enabled span (depth + 1) event).isSome = true ↔
      ∀ d ∈ (layer.eventSerialize f toUppercase span event (now event)).diagnostics,
        enabled d.metadata.level = true →
        (layer.onEvent f toUppercase now enabled span depth d).isSome = true := by
  rw [onEvent, Option.isSome_map, gather_isSome]
  simp only [List.forall_mem_map, List.mem_filter, and_imp]

theorem mem_reported {values : Values} {p : String → Bool} {g : String → Event} {d : Event} :
    d ∈ (values.pairs.filter fun entry => p entry.1).map (fun entry => g entry.1) ↔
      ∃ key ∈ values, p key = true ∧ g key = d := by
  constructor
  · intro mem
    obtain ⟨entry, listed, same⟩ := List.mem_map.mp mem
    obtain ⟨held, reported⟩ :=
      (key_mem_filter values entry.1 p).mp (List.mem_map_of_mem listed)
    exact ⟨entry.1, held, reported, same⟩
  · rintro ⟨key, held, reported, same⟩
    obtain ⟨entry, listed, rfl⟩ :=
      List.mem_map.mp ((key_mem_filter values key p).mpr ⟨held, reported⟩)
    exact List.mem_map.mpr ⟨entry, listed, same⟩

/-- What the formatter logs about an event: the reserved defaults, and the values of the span
that are reserved or that the event has as well. -/
theorem mem_diagnostics {d : Event} {time : Option String} :
    d ∈ (layer.eventSerialize f toUppercase span event time).diagnostics ↔
      (∃ key ∈ layer.defaultFields, isExtra key = false ∧ reservedField key = d) ∨
      ∃ key ∈ spanValues span,
        (isExtra key = true → key ∈ (Storage.record event.fields {}).values) ∧
        reservedEntry key = d := by
  unfold eventSerialize
  rw [(layer.commonSerialize_spec f event.metadata span _ _ _ _).2.2, List.mem_append]
  apply or_congr
  · apply (mem_reported (p := fun key => !isExtra key)).trans
    apply exists_congr
    intro key
    rw [Bool.not_eq_true']
  · apply (mem_reported (p := fun key => !(isExtra key &&
      decide (key ∉ eventValues (some (Storage.record event.fields {})))))).trans
    apply exists_congr
    intro key
    apply and_congr_right
    intro _
    apply and_congr_left'
    cases isExtra key with
    | false => simp
    | true =>
      simp only [Bool.true_and, Bool.not_eq_true', decide_eq_false_iff_not, not_not, true_imp_iff]
      rfl

theorem never_ends {d : Event} (enabledFor : enabled d.metadata.level = true)
    (reported : ∀ event, d ∈ (layer.eventSerialize f toUppercase span event
      (now event)).diagnostics) : ¬ layer.Ends f toUppercase now enabled span event := by
  rintro ⟨depth, ended⟩
  induction depth generalizing event with
  | zero => cases ended
  | succ depth ih => exact ih (onEvent_isSome.mp ended d (reported event) enabledFor)

theorem message_values {text key : String}
    (held : key ∈ (Storage.record [("message", .debug text)] {}).values) : isExtra key = false := by
  have name : Recorded.key "message" (.debug text) = some "message" := by
    unfold Recorded.key
    rw [if_neg (by decide), if_neg (by decide)]
  have only : (Storage.record [("message", .debug text)] {}).values =
      AList.insert "message" (.string text) ∅ := by
    simp only [Storage.record, List.foldl_cons, List.foldl_nil, Storage.visit, name]
    rfl
  rw [only, AList.mem_insert] at held
  rcases held with rfl | none
  · decide
  · exact absurd none (AList.notMem_empty key)

theorem logging_ends_iff (layer : FormattingLayer) (f : Features) (toUppercase : String → String)
    (now : Event → Option String) (enabled : Level → Bool) (span : Option SpanRef)
    (event : Event) : layer.Ends f toUppercase now enabled span event ↔
      (enabled .warn = true → ∀ key ∈ layer.defaultFields, key ∉ implicitKeys) ∧
      (enabled .debug = true → ∀ key ∈ spanValues span, key ∉ implicitKeys) := by
  have reserved : ∀ key : String, key ∈ implicitKeys ↔ isExtra key = false := by simp [isExtra]
  constructor
  · intro ends
    constructor
    · intro warn key held implicit
      apply never_ends (d := reservedField key) warn _ ends
      intro event
      exact mem_diagnostics.mpr (.inl ⟨key, held, (reserved key).mp implicit, rfl⟩)
    · intro debug key held implicit
      apply never_ends (d := reservedEntry key) debug _ ends
      intro event
      refine mem_diagnostics.mpr (.inr ⟨key, held, fun extra => ?_, rfl⟩)
      exact absurd (((reserved key).mp implicit).symm.trans extra) Bool.false_ne_true
  · rintro ⟨noField, noEntry⟩
    -- no field is reported, and an entry only where the event has its key as well
    have field : ∀ key ∈ layer.defaultFields, isExtra key = false → enabled .warn = true → False :=
      fun key held hidden warn => noField warn key held ((reserved key).mpr hidden)
    have entry : ∀ key ∈ spanValues span, isExtra key = false → enabled .debug = true → False :=
      fun key held hidden debug => noEntry debug key held ((reserved key).mpr hidden)
    refine ⟨2, onEvent_isSome.mpr fun d reported isEnabled => ?_⟩
    rcases mem_diagnostics.mp reported with ⟨key, held, hidden, rfl⟩ | ⟨key, held, -, rfl⟩
    · exact (field key held hidden isEnabled).elim
    · refine onEvent_isSome.mpr fun d' reported' isEnabled' => ?_
      rcases mem_diagnostics.mp reported' with ⟨key', held', hidden', rfl⟩ | ⟨key', held', own, rfl⟩
      · exact (field key' held' hidden' isEnabled').elim
      · exfalso
        apply entry key' held' _ isEnabled'
        cases extra : isExtra key' with
        | false => rfl
        | true => exact (message_values (own extra)).symm.trans extra |>.symm

/-- A default for a key that the formatter writes itself. -/
theorem reserved_default_never_ends : ¬ ∀ (layer : FormattingLayer) (f : Features)
    (toUppercase : String → String) (now : Event → Option String) (enabled : Level → Bool)
    (span : Option SpanRef) (event : Event),
    layer.Ends f toUppercase now enabled span event := by
  intro all
  let layer : FormattingLayer :=
    ⟨1, "host", "development", "router", "", "", AList.singleton "service" (.string "router")⟩
  have held : "service" ∈ layer.defaultFields := by decide
  apply never_ends (d := reservedField "service") _ _
    (all layer ⟨false, false, false⟩ id (fun _ => none) (fun _ => true) none
      ⟨⟨"event", .info, "router", none, none⟩, []⟩)
  · rfl
  · intro event
    exact mem_diagnostics.mpr (.inl ⟨"service", held, by decide, rfl⟩)

end FormattingLayer
end Mercado.Logger
