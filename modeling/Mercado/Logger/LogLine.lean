import Mercado.Logger.Formatter
import Mercado.Serde.Json

/-! What is in a log line: every key once, and nothing lost of the event and of its span. -/
namespace Mercado.Logger

def topLevel (f : Features) (key : String) : Bool :=
  if isExtraImplicit key then f.logExtraImplicitFields
  else isExtra key && !f.logCustomEntriesToExtra

def inExtra (f : Features) (key : String) : Bool :=
  !isExtraImplicit key && isExtra key && f.logCustomEntriesToExtra

def Serializing.place (s : Serializing) (f : Features) (key : String) : List (String × Value) :=
  if inExtra f key then s.extra.pairs else s.entries

def Serializing.extraEntry (s : Serializing) : String × Value := ("extra", .object s.extra.pairs)

/-- The line has every key once, shows the implicit entries as they are, and all that is to be
shown of the event, and of the span where the event has not the same key. -/
structure Complete (f : Features) (defaults : Values) (written : List (String × Value))
    (ofEvent ofSpan : Values) (s : Serializing) : Prop where
  unique : (s.entries.map Prod.fst).Nodup
  uniqueInExtra : (s.extra.pairs.map Prod.fst).Nodup
  extra : f.logCustomEntriesToExtra = true → s.entries.getLast? = some s.extraEntry
  implicit : s.entries.filter (implicitKeys.contains ·.1) = written
  notInExtra : ∀ key ∈ s.extra, key ∉ implicitKeys
  event : ∀ key value, ofEvent.lookup key = some value →
    (topLevel f key || inExtra f key) = true →
    (s.place f key).filter (·.1 = key) = [(key, value)]
  span : ∀ key value, ofSpan.lookup key = some value → key ∉ ofEvent →
    (topLevel f key || inExtra f key) = true →
    (s.place f key).filter (·.1 = key) = [(key, value)]
  elsewhere : ∀ key, key ∈ ofEvent ∨ key ∈ ofSpan →
    (topLevel f key = true → key ∉ s.extra) ∧
    (inExtra f key = true → ∀ entry ∈ s.entries, entry.1 = key →
      entry ∈ defaults.pairs ∨ entry = s.extraEntry)

/-- No default has the key of an entry that the event or the span puts beside it, and none is
the extra object. -/
def Apart (f : Features) (defaults ofEvent ofSpan : Values) : Prop :=
  (f.logCustomEntriesToExtra = true → "extra" ∉ defaults) ∧
    ∀ key ∈ defaults, key ∈ ofEvent ∨ key ∈ ofSpan → topLevel f key = false

/- Entries as pairs. -/

section Pairs

variable {values : Values} {key : String} {value : Value} {l : List (String × Value)}

theorem pairs_keys (values : Values) : values.pairs.map Prod.fst = values.keys := by
  unfold Values.pairs
  rw [List.map_map]
  rfl

theorem pairs_nodup (values : Values) : (values.pairs.map Prod.fst).Nodup :=
  pairs_keys values ▸ values.keys_nodup

theorem mem_pairs : (key, value) ∈ values.pairs ↔ values.lookup key = some value := by
  unfold Values.pairs
  rw [List.mem_map, ← Option.mem_def, AList.mem_lookup_iff]
  constructor
  · rintro ⟨entry, mem, same⟩
    cases same
    exact mem
  · intro mem
    exact ⟨_, mem, rfl⟩

theorem key_mem_pairs : key ∈ values.pairs.map Prod.fst ↔ key ∈ values := by
  rw [pairs_keys]
  rfl

theorem key_mem_filter (values : Values) (key : String) (p : String → Bool) :
    key ∈ (values.pairs.filter fun entry => p entry.1).map Prod.fst ↔
      key ∈ values ∧ p key = true := by
  rw [← key_mem_pairs, List.mem_map, List.mem_map]
  constructor
  · rintro ⟨entry, mem, rfl⟩
    obtain ⟨mem, holds⟩ := List.mem_filter.mp mem
    exact ⟨⟨entry, mem, rfl⟩, holds⟩
  · rintro ⟨⟨entry, mem, rfl⟩, holds⟩
    exact ⟨entry, List.mem_filter.mpr ⟨mem, holds⟩, rfl⟩

theorem filter_key (nodup : (l.map Prod.fst).Nodup) (mem : (key, value) ∈ l) :
    l.filter (·.1 = key) = [(key, value)] :=
  SerdeJson.filter_of_distinct nodup mem

def insertAll (l : List (String × Value)) (values : Values) : Values :=
  l.foldl (fun m entry => m.insert entry.1 entry.2) values

theorem lookup_insertAll (nodup : (l.map Prod.fst).Nodup) :
    (insertAll l values).lookup key = some value ↔
      (key, value) ∈ l ∨ key ∉ l.map Prod.fst ∧ values.lookup key = some value := by
  unfold insertAll
  induction l generalizing values with
  | nil => simp
  | cons entry l ih =>
    obtain ⟨absent, rest⟩ := List.nodup_cons.mp nodup
    rw [List.foldl_cons, ih rest, List.mem_cons, List.map_cons, List.mem_cons]
    by_cases same : key = entry.1
    · subst same
      have elsewhere : (entry.1, value) ∉ l := fun mem =>
        absent (List.mem_map.mpr ⟨_, mem, rfl⟩)
      rw [AList.lookup_insert]
      simp [absent, elsewhere, Prod.ext_iff, eq_comm]
    · rw [AList.lookup_insert_ne same]
      simp [same, Prod.ext_iff]

end Pairs

/- The loops. -/

namespace Serializing

variable {f : Features}

theorem defaults_loop (l : List (String × Value)) (s : Serializing) :
    l.foldl (fun s entry => s.defaultField entry.1 entry.2) s =
      { s with
        entries := s.entries ++ l.filter fun entry => isExtra entry.1
        diagnostics := s.diagnostics ++
          (l.filter fun entry => !isExtra entry.1).map fun entry => reservedField entry.1 } := by
  induction l generalizing s with
  | nil => simp
  | cons entry l ih =>
    rw [List.foldl_cons, ih]
    have step : s.defaultField entry.1 entry.2 = if isExtra entry.1 then
      s.serializeEntry entry.1 entry.2 else s.log (reservedField entry.1) := rfl
    rw [step]
    cases extra : isExtra entry.1 with
    | true => simp [serializeEntry, extra]
    | false => simp [log, extra]

theorem extraImplicit_extra {key : String} (h : isExtraImplicit key = true) :
    isExtra key = true := by
  unfold isExtraImplicit at h
  exact (Bool.and_eq_true_iff.mp h).1

def write (f : Features) (s : Serializing) (entry : String × Value) : Serializing :=
  if topLevel f entry.1 then s.serializeEntry entry.1 entry.2
  else if inExtra f entry.1 then { s with extra := s.extra.insert entry.1 entry.2 }
  else s

theorem eventEntry_eq (s : Serializing) (entry : String × Value) : s.eventEntry f entry.1 entry.2 =
    if isExtra entry.1 then (s.write f entry).explicit entry.1 else s := by
  unfold eventEntry write topLevel inExtra customEntry extraImplicitEntry
  cases implicit : isExtraImplicit entry.1 with
  | true => simp [extraImplicit_extra implicit]
  | false => cases isExtra entry.1 <;> cases f.logCustomEntriesToExtra <;> simp

theorem spanEntry_eq (s : Serializing) (entry : String × Value) : s.spanEntry f entry.1 entry.2 =
    if isExtra entry.1 && !s.explicitEntriesSet.contains entry.1 then s.write f entry
    else s.log (reservedEntry entry.1) := by
  unfold spanEntry write topLevel inExtra customEntry extraImplicitEntry
  cases implicit : isExtraImplicit entry.1 with
  | true => cases s.explicitEntriesSet.contains entry.1 <;> simp [extraImplicit_extra implicit]
  | false =>
    cases isExtra entry.1 <;> cases f.logCustomEntriesToExtra <;>
      cases s.explicitEntriesSet.contains entry.1 <;> simp

theorem topLevel_extra {key : String} (h : topLevel f key = true) :
    isExtra key = true ∧ inExtra f key = false := by
  unfold topLevel at h
  unfold inExtra
  cases implicit : isExtraImplicit key with
  | true => exact ⟨extraImplicit_extra implicit, rfl⟩
  | false =>
    simp only [implicit, Bool.false_eq_true, if_false, Bool.and_eq_true, Bool.not_eq_true'] at h
    simp [h]

theorem inExtra_extra {key : String} (h : inExtra f key = true) :
    isExtra key = true ∧ topLevel f key = false ∧ f.logCustomEntriesToExtra = true := by
  unfold inExtra at h
  simp only [Bool.and_eq_true, Bool.not_eq_true'] at h
  simp [topLevel, h]

theorem not_extra {key : String} (reserved : isExtra key = false) :
    topLevel f key = false ∧ inExtra f key = false := by
  constructor
  · by_contra top
    simp [(topLevel_extra (Bool.not_eq_false _ ▸ top)).1] at reserved
  · by_contra inside
    simp [(inExtra_extra (Bool.not_eq_false _ ▸ inside)).1] at reserved

theorem event_loop (l : List (String × Value)) (s : Serializing) :
    l.foldl (fun s entry => s.eventEntry f entry.1 entry.2) s =
      { s with
        entries := s.entries ++ l.filter fun entry => topLevel f entry.1
        extra := insertAll (l.filter fun entry => inExtra f entry.1) s.extra
        explicitEntriesSet := ((l.filter fun entry => isExtra entry.1).map Prod.fst).reverse ++
          s.explicitEntriesSet } := by
  induction l generalizing s with
  | nil => simp [insertAll]
  | cons entry l ih =>
    rw [List.foldl_cons, ih, eventEntry_eq]
    cases extra : isExtra entry.1 with
    | false =>
      obtain ⟨notTop, notIn⟩ := not_extra (f := f) extra
      simp [extra, notTop, notIn]
    | true =>
      cases top : topLevel f entry.1 with
      | true =>
        have notIn := (topLevel_extra top).2
        simp [explicit, write, serializeEntry, extra, top, notIn]
      | false =>
        cases inside : inExtra f entry.1 with
        | true => simp [explicit, write, insertAll, extra, top, inside]
        | false => simp [explicit, write, extra, top, inside]

theorem span_loop (l : List (String × Value)) (s : Serializing) :
    l.foldl (fun s entry => s.spanEntry f entry.1 entry.2) s =
      { s with
        entries := s.entries ++ l.filter fun entry =>
          topLevel f entry.1 && !s.explicitEntriesSet.contains entry.1
        extra := insertAll (l.filter fun entry =>
          inExtra f entry.1 && !s.explicitEntriesSet.contains entry.1) s.extra
        diagnostics := s.diagnostics ++ (l.filter fun entry =>
          !(isExtra entry.1 && !s.explicitEntriesSet.contains entry.1)).map fun entry =>
            reservedEntry entry.1 } := by
  induction l generalizing s with
  | nil => simp [insertAll]
  | cons entry l ih =>
    rw [List.foldl_cons, ih, spanEntry_eq]
    cases extra : isExtra entry.1 with
    | false =>
      obtain ⟨notTop, notIn⟩ := not_extra (f := f) extra
      simp [log, extra, notTop, notIn]
    | true =>
      by_cases seen : entry.1 ∈ s.explicitEntriesSet
      · simp [log, extra, seen]
      cases top : topLevel f entry.1 with
      | true =>
        have notIn := (topLevel_extra top).2
        simp [write, serializeEntry, extra, seen, top, notIn]
      | false =>
        cases inside : inExtra f entry.1 with
        | true => simp [write, insertAll, extra, seen, top, inside]
        | false => simp [write, extra, seen, top, inside]

end Serializing
namespace FormattingLayer
open Serializing

variable (layer : FormattingLayer) (f : Features) (metadata : Metadata) (span : Option SpanRef)
  (storage : Option Storage) (name message : String) (time : Option String)

def eventValues (storage : Option Storage) : Values := (storage.map (·.values)).getD ∅

def spanValues (span : Option SpanRef) : Values := eventValues (span.bind (·.storage))

def unshadowed (span : Option SpanRef) (storage : Option Storage) : List (String × Value) :=
  (spanValues span).pairs.filter fun entry => entry.1 ∉ eventValues storage

theorem eventEntries_eq (s : Serializing) : s.eventEntries f storage =
    (eventValues storage).pairs.foldl (fun s entry => s.eventEntry f entry.1 entry.2) s := by
  cases storage <;> rfl

theorem spanEntries_eq (s : Serializing) : s.spanEntries f span =
    (spanValues span).pairs.foldl (fun s entry => s.spanEntry f entry.1 entry.2) s := by
  unfold spanValues spanEntries
  cases span.bind (·.storage) <;> rfl

def explicitKeys (storage : Option Storage) : List String :=
  (((eventValues storage).pairs.filter fun entry => isExtra entry.1).map Prod.fst).reverse

theorem explicitKeys_contains {key : String} (extra : isExtra key = true) :
    (explicitKeys storage).contains key = decide (key ∈ eventValues storage) := by
  rw [explicitKeys, Bool.eq_iff_iff, List.contains_iff_mem, List.mem_reverse, decide_eq_true_iff,
    key_mem_filter]
  exact and_iff_left extra

theorem filter_explicitKeys {p : String → Bool} (extra : ∀ key, p key = true → isExtra key = true) :
    ((spanValues span).pairs.filter fun entry =>
      p entry.1 && !(explicitKeys storage).contains entry.1) =
      (unshadowed span storage).filter fun entry => p entry.1 := by
  rw [unshadowed, List.filter_filter]
  apply List.filter_congr
  intro entry _
  cases here : p entry.1 with
  | false => rfl
  | true =>
    rw [explicitKeys_contains storage (extra entry.1 here)]
    simp

theorem reported_explicitKeys : ((spanValues span).pairs.filter fun entry =>
      !(isExtra entry.1 && !(explicitKeys storage).contains entry.1)) =
    (spanValues span).pairs.filter fun entry =>
      !(isExtra entry.1 && entry.1 ∉ eventValues storage) := by
  apply List.filter_congr
  intro entry _
  cases extra : isExtra entry.1 with
  | false => rfl
  | true =>
    rw [explicitKeys_contains storage extra]
    simp

/-- What `common_serialize` has written, and what it has logged meanwhile. -/
theorem commonSerialize_spec :
    (layer.commonSerialize f metadata span storage name message time).entries =
      layer.implicitEntries f metadata name message time ++
      layer.defaultFields.pairs.filter (fun entry => isExtra entry.1) ++
      (eventValues storage).pairs.filter (fun entry => topLevel f entry.1) ++
      (unshadowed span storage).filter (fun entry => topLevel f entry.1) ++
      (if f.logCustomEntriesToExtra then
        [(layer.commonSerialize f metadata span storage name message time).extraEntry]
      else []) ∧
    (layer.commonSerialize f metadata span storage name message time).extra =
      insertAll ((unshadowed span storage).filter fun entry => inExtra f entry.1)
        (insertAll ((eventValues storage).pairs.filter fun entry => inExtra f entry.1) ∅) ∧
    (layer.commonSerialize f metadata span storage name message time).diagnostics =
      (layer.defaultFields.pairs.filter fun entry => !isExtra entry.1).map
        (fun entry => reservedField entry.1) ++
      ((spanValues span).pairs.filter fun entry =>
        !(isExtra entry.1 && entry.1 ∉ eventValues storage)).map
        fun entry => reservedEntry entry.1 := by
  have shown := filter_explicitKeys (p := topLevel f) span storage fun _ top =>
    (topLevel_extra top).1
  have inside := filter_explicitKeys (p := inExtra f) span storage fun _ inside =>
    (inExtra_extra inside).1
  have reported := reported_explicitKeys span storage
  unfold explicitKeys at shown inside reported
  unfold commonSerialize
  simp only [eventEntries_eq, spanEntries_eq, defaultEntries, defaults_loop, event_loop,
    span_loop, List.append_nil, List.nil_append, reported, shown, inside]
  cases f.logCustomEntriesToExtra with
  | true => simp [serializeEntry, extraEntry]
  | false => simp

theorem implicitEntries_keys :
    ((layer.implicitEntries f metadata name message time).map Prod.fst).Sublist implicitKeys := by
  have keys : (layer.implicitEntries f metadata name message time).map Prod.fst =
      ["message", "hostname", "pid", "env"] ++ (if f.vergen then ["version", "build"] else []) ++
      ["level", "target", "service", "line", "file", "fn", "full_name"] ++
      if time.isSome then ["time"] else [] := by
    unfold implicitEntries
    cases f.vergen <;> cases time <;> rfl
  rw [keys]
  cases f.vergen <;> cases time.isSome <;> decide

theorem implicitEntries_nodup :
    ((layer.implicitEntries f metadata name message time).map Prod.fst).Nodup := by
  have all : implicitKeys.Nodup := by decide
  exact (layer.implicitEntries_keys f metadata name message time).nodup all

theorem implicitEntries_implicit :
    ∀ entry ∈ layer.implicitEntries f metadata name message time, isExtra entry.1 = false := by
  intro entry mem
  have key := (layer.implicitEntries_keys f metadata name message time).mem
    (List.mem_map_of_mem mem)
  simpa [isExtra] using key

theorem mem_unshadowed {key : String} {value : Value} : (key, value) ∈ unshadowed span storage ↔
    (spanValues span).lookup key = some value ∧ key ∉ eventValues storage := by
  unfold unshadowed
  rw [List.mem_filter, mem_pairs]
  simp

theorem unshadowed_nodup : ((unshadowed span storage).map Prod.fst).Nodup :=
  (List.filter_sublist.map Prod.fst).nodup (pairs_nodup (spanValues span))

theorem filter_nodup {l : List (String × Value)} (nodup : (l.map Prod.fst).Nodup)
    (p : String × Value → Bool) : ((l.filter p).map Prod.fst).Nodup :=
  (List.filter_sublist.map Prod.fst).nodup nodup

theorem extra_spec (key : String) (value : Value) :
    (layer.commonSerialize f metadata span storage name message time).extra.lookup key =
        some value ↔
      inExtra f key = true ∧ ((eventValues storage).lookup key = some value ∨
        (spanValues span).lookup key = some value ∧ key ∉ eventValues storage) := by
  obtain ⟨-, extra, -⟩ := layer.commonSerialize_spec f metadata span storage name message time
  rw [extra]
  have event := filter_nodup (pairs_nodup (eventValues storage)) fun entry => inExtra f entry.1
  have others := filter_nodup (unshadowed_nodup span storage) fun entry => inExtra f entry.1
  rw [lookup_insertAll others, lookup_insertAll event]
  simp only [List.mem_filter, mem_pairs, mem_unshadowed]
  constructor
  · rintro (⟨⟨held, absent⟩, inside⟩ | ⟨-, ⟨held, inside⟩ | ⟨-, held⟩⟩)
    · exact ⟨inside, .inr ⟨held, absent⟩⟩
    · exact ⟨inside, .inl held⟩
    · cases held
  · rintro ⟨inside, held | ⟨held, absent⟩⟩
    · refine .inr ⟨?_, .inl ⟨held, inside⟩⟩
      intro mem
      obtain ⟨entry, listed, rfl⟩ := List.mem_map.mp mem
      have absent := ((mem_unshadowed span storage).mp (List.mem_filter.mp listed).1).2
      exact absent (AList.lookup_isSome.mp (by rw [held]; rfl))
    · exact .inl ⟨⟨held, absent⟩, inside⟩

theorem key_mem_unshadowed (key : String) (p : String → Bool) :
    key ∈ ((unshadowed span storage).filter fun entry => p entry.1).map Prod.fst ↔
      key ∈ spanValues span ∧ key ∉ eventValues storage ∧ p key = true := by
  unfold unshadowed
  rw [List.filter_filter]
  have both := key_mem_filter (spanValues span) key
    fun key => p key && decide (key ∉ eventValues storage)
  rw [both, Bool.and_eq_true, decide_eq_true_iff, and_comm (a := p key = true)]

theorem extra_topLevel : topLevel f "extra" = !f.logCustomEntriesToExtra := by
  have implicit : isExtraImplicit "extra" = false := by decide
  have extra : isExtra "extra" = true := by decide
  simp [topLevel, implicit, extra]

theorem implicit_disjoint {l : List String} (all : ∀ key ∈ l, isExtra key = true) :
    ((layer.implicitEntries f metadata name message time).map Prod.fst).Disjoint l := by
  intro key mem mem'
  obtain ⟨entry, listed, rfl⟩ := List.mem_map.mp mem
  have implicit := layer.implicitEntries_implicit f metadata name message time entry listed
  exact absurd (implicit.symm.trans (all entry.1 mem')) Bool.false_ne_true

theorem key_mem_extraEntry {s : Serializing} {key : String} :
    key ∈ (if f.logCustomEntriesToExtra then [s.extraEntry] else []).map Prod.fst ↔
      f.logCustomEntriesToExtra = true ∧ key = "extra" := by
  cases f.logCustomEntriesToExtra <;> simp [extraEntry]

theorem apart_of_nodup (nodup : ((layer.commonSerialize f metadata span storage name message
      time).entries.map Prod.fst).Nodup) :
    Apart f layer.defaultFields (eventValues storage) (spanValues span) := by
  obtain ⟨entries, -, -⟩ := layer.commonSerialize_spec f metadata span storage name message time
  rw [entries] at nodup
  simp only [List.map_append, List.nodup_append', List.disjoint_append_left] at nodup
  obtain ⟨⟨⟨-, -, -, defaultEvent⟩, -, ⟨-, defaultSpan⟩, -⟩, -, ⟨⟨-, defaultExtra⟩, -⟩, -⟩ := nodup
  have defaults := fun key => key_mem_filter layer.defaultFields key isExtra
  constructor
  · intro custom mem
    exact defaultExtra ((defaults "extra").mpr ⟨mem, by decide⟩)
      ((key_mem_extraEntry f).mpr ⟨custom, rfl⟩)
  · intro key mem shown
    by_contra top
    have top : topLevel f key = true := by simpa using top
    have default := (defaults key).mpr ⟨mem, (topLevel_extra top).1⟩
    by_cases inEvent : key ∈ eventValues storage
    · exact defaultEvent default ((key_mem_filter _ key _).mpr ⟨inEvent, top⟩)
    · exact defaultSpan default ((key_mem_unshadowed span storage key _).mpr
        ⟨shown.resolve_left inEvent, inEvent, top⟩)

theorem nodup_of_apart (apart : Apart f layer.defaultFields (eventValues storage)
      (spanValues span)) :
    ((layer.commonSerialize f metadata span storage name message time).entries.map
      Prod.fst).Nodup := by
  obtain ⟨entries, -, -⟩ := layer.commonSerialize_spec f metadata span storage name message time
  obtain ⟨noExtra, apart⟩ := apart
  have defaults := fun key => key_mem_filter layer.defaultFields key isExtra
  have event := fun key => key_mem_filter (eventValues storage) key (topLevel f)
  have others := fun key => key_mem_unshadowed span storage key (topLevel f)
  have implicit := fun l => layer.implicit_disjoint f metadata name message time (l := l)
  have notExtra : ∀ key, topLevel f key = true → f.logCustomEntriesToExtra = true →
      key ≠ "extra" := by
    rintro key top custom rfl
    rw [extra_topLevel, custom] at top
    cases top
  rw [entries]
  simp only [List.map_append, List.nodup_append', List.disjoint_append_left]
  refine ⟨⟨⟨⟨?_, filter_nodup (pairs_nodup _) _, implicit _ ?_⟩,
      filter_nodup (pairs_nodup _) _, implicit _ ?_, ?_⟩,
      filter_nodup (unshadowed_nodup span storage) _, ⟨implicit _ ?_, ?_⟩, ?_⟩,
    ?_, ⟨⟨implicit _ ?_, ?_⟩, ?_⟩, ?_⟩
  · exact layer.implicitEntries_nodup f metadata name message time
  · exact fun key mem => ((defaults key).mp mem).2
  · exact fun key mem => (topLevel_extra ((event key).mp mem).2).1
  · intro key mem mem'
    obtain ⟨inEvent, top⟩ := (event key).mp mem'
    exact absurd top (by simp [apart key ((defaults key).mp mem).1 (.inl inEvent)])
  · exact fun key mem => (topLevel_extra ((others key).mp mem).2.2).1
  · intro key mem mem'
    obtain ⟨inSpan, -, top⟩ := (others key).mp mem'
    exact absurd top (by simp [apart key ((defaults key).mp mem).1 (.inr inSpan)])
  · exact fun key mem mem' => ((others key).mp mem').2.1 ((event key).mp mem).1
  · cases f.logCustomEntriesToExtra <;> simp
  · intro key mem
    rw [((key_mem_extraEntry f).mp mem).2]
    decide
  · intro key mem mem'
    obtain ⟨custom, rfl⟩ := (key_mem_extraEntry f).mp mem'
    exact noExtra custom ((defaults _).mp mem).1
  · intro key mem mem'
    obtain ⟨custom, same⟩ := (key_mem_extraEntry f).mp mem'
    exact notExtra key ((event key).mp mem).2 custom same
  · intro key mem mem'
    obtain ⟨custom, same⟩ := (key_mem_extraEntry f).mp mem'
    exact notExtra key ((others key).mp mem).2.2 custom same

/-- All keys of the line are different exactly if the defaults stay apart. -/
theorem entries_nodup : ((layer.commonSerialize f metadata span storage name message
      time).entries.map Prod.fst).Nodup ↔
    Apart f layer.defaultFields (eventValues storage) (spanValues span) :=
  ⟨layer.apart_of_nodup f metadata span storage name message time,
    layer.nodup_of_apart f metadata span storage name message time⟩

theorem implicit_shown :
    (layer.commonSerialize f metadata span storage name message time).entries.filter
      (implicitKeys.contains ·.1) = layer.implicitEntries f metadata name message time := by
  obtain ⟨entries, -, -⟩ := layer.commonSerialize_spec f metadata span storage name message time
  have implicit := layer.implicitEntries_implicit f metadata name message time
  have all : (layer.implicitEntries f metadata name message time).filter
      (implicitKeys.contains ·.1) = layer.implicitEntries f metadata name message time := by
    apply List.filter_eq_self.mpr
    intro entry mem
    simpa [isExtra] using implicit entry mem
  have none : ∀ l : List (String × Value), (∀ entry ∈ l, isExtra entry.1 = true) →
      l.filter (implicitKeys.contains ·.1) = [] := by
    intro l shown
    apply List.filter_eq_nil_iff.mpr
    intro entry mem
    simpa [isExtra] using shown entry mem
  rw [entries, List.filter_append, List.filter_append, List.filter_append, List.filter_append,
    all, none, none, none, none]
  · simp
  · intro entry mem
    rw [((key_mem_extraEntry f).mp (List.mem_map_of_mem mem)).2]
    decide
  · exact fun entry mem => (topLevel_extra (List.mem_filter.mp mem).2).1
  · exact fun entry mem => (topLevel_extra (List.mem_filter.mp mem).2).1
  · exact fun entry mem => (List.mem_filter.mp mem).2

theorem default_or_extra {entry : String × Value} (custom : inExtra f entry.1 = true)
    (mem : entry ∈ (layer.commonSerialize f metadata span storage name message time).entries) :
    entry ∈ layer.defaultFields.pairs ∨
      entry = (layer.commonSerialize f metadata span storage name message time).extraEntry := by
  obtain ⟨entries, -, -⟩ := layer.commonSerialize_spec f metadata span storage name message time
  obtain ⟨isExtraKey, notTop, -⟩ := inExtra_extra custom
  rw [entries] at mem
  simp only [List.mem_append, List.mem_filter, notTop, Bool.false_eq_true, and_false,
    or_false] at mem
  rcases mem with (mem | ⟨mem, -⟩) | mem
  · have implicit := layer.implicitEntries_implicit f metadata name message time entry mem
    exact absurd (implicit.symm.trans isExtraKey) Bool.false_ne_true
  · exact .inl mem
  · split at mem
    · exact .inr (List.mem_singleton.mp mem)
    · cases mem

theorem shown_once {key : String} {value : Value}
    (unique : ((layer.commonSerialize f metadata span storage name message
      time).entries.map Prod.fst).Nodup)
    (held : (eventValues storage).lookup key = some value ∨
      (spanValues span).lookup key = some value ∧ key ∉ eventValues storage)
    (shown : (topLevel f key || inExtra f key) = true) :
    ((layer.commonSerialize f metadata span storage name message time).place f key).filter
      (·.1 = key) = [(key, value)] := by
  unfold place
  cases inside : inExtra f key with
  | true =>
    apply filter_key (pairs_nodup _)
    rw [mem_pairs]
    exact (layer.extra_spec f metadata span storage name message time key value).mpr
      ⟨inside, held⟩
  | false =>
    have top : topLevel f key = true := by simpa [inside] using shown
    apply filter_key unique
    rw [(layer.commonSerialize_spec f metadata span storage name message time).1]
    simp only [List.mem_append, List.mem_filter]
    rcases held with held | ⟨held, absent⟩
    · exact .inl (.inl (.inr ⟨mem_pairs.mpr held, top⟩))
    · exact .inl (.inr ⟨(mem_unshadowed span storage).mpr ⟨held, absent⟩, top⟩)

/-- The line is as it should be exactly if the defaults stay apart. -/
theorem log_line_complete : Complete f layer.defaultFields
      (layer.implicitEntries f metadata name message time) (eventValues storage) (spanValues span)
      (layer.commonSerialize f metadata span storage name message time) ↔
    Apart f layer.defaultFields (eventValues storage) (spanValues span) := by
  have unique := layer.entries_nodup f metadata span storage name message time
  obtain ⟨entries, -, -⟩ := layer.commonSerialize_spec f metadata span storage name message time
  have extra := layer.extra_spec f metadata span storage name message time
  have inside : ∀ key ∈ (layer.commonSerialize f metadata span storage name message time).extra,
      inExtra f key = true := by
    intro key mem
    obtain ⟨value, held⟩ := Option.isSome_iff_exists.mp (AList.lookup_isSome.mpr mem)
    exact ((extra key value).mp held).1
  refine ⟨fun complete => unique.mp complete.unique, fun apart => ?_⟩
  constructor
  · exact unique.mpr apart
  · exact pairs_nodup _
  · intro custom
    rw [entries, custom]
    simp
  · exact layer.implicit_shown f metadata span storage name message time
  · intro key mem
    have shown := (inExtra_extra (inside key mem)).1
    simpa [isExtra] using shown
  · intro key value held shown
    exact layer.shown_once f metadata span storage name message time (unique.mpr apart)
      (.inl held) shown
  · intro key value held absent shown
    exact layer.shown_once f metadata span storage name message time (unique.mpr apart)
      (.inr ⟨held, absent⟩) shown
  · intro key _
    constructor
    · intro top mem
      exact absurd (topLevel_extra top).2 (by simp [inside key mem])
    · rintro custom entry mem rfl
      exact layer.default_or_extra f metadata span storage name message time custom mem

/-- A default and a field of the event with the same key, and no extra object to put it in. -/
theorem default_doubles_event : ¬ ∀ (layer : FormattingLayer) (f : Features) (metadata : Metadata)
    (span : Option SpanRef) (storage : Option Storage) (name message : String)
    (time : Option String), Complete f layer.defaultFields
      (layer.implicitEntries f metadata name message time) (eventValues storage) (spanValues span)
      (layer.commonSerialize f metadata span storage name message time) := by
  intro all
  let layer : FormattingLayer :=
    ⟨1, "host", "development", "router", "", "", AList.singleton "region" (.string "eu")⟩
  let event : Storage := ⟨AList.singleton "region" (.string "us")⟩
  have complete := all layer ⟨false, false, false⟩
    ⟨"event", .info, "router", none, none⟩ none (some event) "?" "router" none
  have apart := (layer.entries_nodup ..).mp complete.unique
  have hidden := apart.2 "region" (by decide) (.inl (by decide))
  exact absurd hidden (by decide)

end FormattingLayer
end Mercado.Logger
