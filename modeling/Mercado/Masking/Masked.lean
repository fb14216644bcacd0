import Mercado.Masking.Secrets

/-! Which secrets `masked_serialize` hides. -/
namespace Mercado.Masking
open SerdeJson (Value)

section Hide

variable (ryu : Ryu)

theorem key_hide : ∀ k : Node, checkKey isRecognised true k = true →
    key ryu k = key ryu (replace maskString emptyMap k)
  | .newtypeStruct v, ok | .erased v, ok => by
    simp only [key, replace, key_hide v ok]
  | .scalar _, _ | .unitVariant _, _ | .some _, _ | .newtypeVariant _ _, _ | .seq _, _
  | .tupleVariant _ _, _ | .map _, _ | .structVariant _ _, _ | .tagged _ _ _, _ => by
    simp only [key, replace]
  | .secret _ _, ok => by simp [checkKey, isRecognised] at ok

mutual

theorem value_hide (t : Target) : ∀ v : Node, check isRecognised true t v = true →
    ∀ t' : Target, t.collects = t'.collects →
      value ryu t v = value ryu t' (replace maskString emptyMap v)
  | .scalar s, _, _, same => by simp only [value, replace, scalar_same same s]
  | .unitVariant _, _, _, _ => by simp only [value, replace]
  | .newtypeStruct v, ok, t', same | .some v, ok, t', same
  | .newtypeVariant _ v, ok, t', same => by
    simp only [value, replace, value_hide t v ok t' same]
  | .seq items, ok, t', same | .tupleVariant _ items, ok, t', same => by
    simp only [value, replace, values_hide t items ok t' same]
  | .map es, ok, t', same => by
    simp only [value, replace, entries_hide (.serializeMap t) es ok (.serializeMap t') same]
  | .structVariant _ fs, ok, t', same => by
    simp only [value, replace, fields_hide t fs ok t' same]
  | .tagged _ _ v, ok, t', same => by
    simp only [value, replace, tagged_hide (.serializeMap t) v ok (.serializeMap t') same]
  | .erased v, ok, t', same => by
    simp only [value, replace, value_hide (.erased t) v ok (.erased t') same]
  | .secret mask inner, ok, t', same => by
    have pii : t = .pii := by simpa [check, isRecognised] using ok
    have string : scalar t' (.str mask) = some (.string mask) := by
      rw [← scalar_same same, pii]
      rfl
    simp only [value, replace, maskString, piiSerialize, pii, if_true, string]

theorem values_hide (t : Target) : ∀ items : List Node,
    checkItems isRecognised true t items = true →
      ∀ t' : Target, t.collects = t'.collects →
        values ryu t items = values ryu t' (replaceItems maskString emptyMap items)
  | [], _, _, _ => by simp only [values, replaceItems]
  | v :: rest, ok, t', same => by
    simp only [checkItems, Bool.and_eq_true] at ok
    simp only [values, replaceItems, value_hide t v ok.1 t' same,
      values_hide t rest ok.2 t' same]

theorem fields_hide (t : Target) : ∀ fs : List (String × Node),
    checkFields isRecognised true t fs = true →
      ∀ t' : Target, t.collects = t'.collects →
        fields ryu t fs = fields ryu t' (replaceFields maskString emptyMap fs)
  | [], _, _, _ => by simp only [fields, replaceFields]
  | (_, v) :: rest, ok, t', same => by
    simp only [checkFields, Bool.and_eq_true] at ok
    simp only [fields, replaceFields, value_hide t v ok.1 t' same,
      fields_hide t rest ok.2 t' same]

theorem entries_hide (m : MapType) : ∀ es : List Entry,
    checkEntries isRecognised true m es = true →
      ∀ m' : MapType, m.target.collects = m'.target.collects →
        entries ryu m es = entries ryu m' (replaceEntries maskString emptyMap es)
  | [], _, _, _ => by simp only [entries, replaceEntries]
  | .entry k v :: rest, ok, m', same => by
    simp only [checkEntries, Bool.and_eq_true] at ok
    simp only [entries, replaceEntries, key_hide ryu k ok.1.1,
      value_hide m.target v ok.1.2 m'.target same, entries_hide m rest ok.2 m' same]
  | .flatten v :: rest, ok, m', same => by
    simp only [checkEntries, Bool.and_eq_true] at ok
    simp only [entries, replaceEntries, flat_hide m v ok.1 m' same,
      entries_hide m rest ok.2 m' same]

theorem flat_hide (m : MapType) : ∀ v : Node, checkFlat isRecognised true m v = true →
    ∀ m' : MapType, m.target.collects = m'.target.collects →
      flatEntries ryu m v = flatEntries ryu m' (replaceFlat maskString emptyMap v)
  | .scalar s, _, _, _ => by cases s <;> simp only [flatEntries, replaceFlat]
  | .unitVariant _, _, _, _ | .seq _, _, _, _ => by simp only [flatEntries, replaceFlat]
  | .newtypeStruct v, ok, m', same | .some v, ok, m', same => by
    simp only [flatEntries, replaceFlat, flat_hide m v ok m' same]
  | .newtypeVariant _ v, ok, m', same => by
    simp only [flatEntries, replaceFlat, value_hide m.target v ok m'.target same]
  | .tupleVariant _ items, ok, _, _ => by
    simp only [flatEntries, replaceFlat, values_hide .content items ok .content rfl]
  | .map es, ok, m', same => by
    simp only [flatEntries, replaceFlat, entries_hide (.flatMap m) es ok (.flatMap m') same]
  | .structVariant _ fs, ok, _, _ => by
    simp only [flatEntries, replaceFlat, fields_hide .content fs ok .content rfl]
  | .tagged _ _ v, ok, m', same => by
    simp only [flatEntries, replaceFlat, tagged_hide (.flatMap m) v ok (.flatMap m') same]
  | .erased v, ok, m', same => by
    simp only [flatEntries, replaceFlat,
      flat_hide (.serializeMap (.erased m.target)) v ok (.serializeMap (.erased m'.target)) same]
  | .secret _ _, ok, _, _ => by
    have direct : m = .serializeMap .pii := by simpa [checkFlat, isRecognised] using ok
    simp [flatEntries, replaceFlat, emptyMap, piiSerialize, direct, entries]

theorem tagged_hide (m : MapType) : ∀ v : Node, checkTagged isRecognised true m v = true →
    ∀ m' : MapType, m.target.collects = m'.target.collects →
      taggedEntries ryu m v = taggedEntries ryu m' (replace maskString emptyMap v)
  | .scalar s, _, _, _ => by cases s <;> simp only [taggedEntries, replace]
  | .unitVariant _, _, _, _ | .some _, _, _, _ | .seq _, _, _, _ => by
    simp only [taggedEntries, replace]
  | .newtypeStruct v, ok, m', same => by
    simp only [taggedEntries, replace, tagged_hide m v ok m' same]
  | .newtypeVariant _ v, ok, m', same => by
    simp only [taggedEntries, replace, value_hide m.target v ok m'.target same]
  | .tupleVariant _ items, ok, _, _ => by
    simp only [taggedEntries, replace, values_hide .content items ok .content rfl]
  | .map es, ok, m', same => by
    simp only [taggedEntries, replace, entries_hide m es ok m' same]
  | .structVariant _ fs, ok, _, _ => by
    simp only [taggedEntries, replace, fields_hide .content fs ok .content rfl]
  | .tagged _ _ v, ok, m', same => by
    simp only [taggedEntries, replace, tagged_hide m v ok m' same]
  | .erased v, ok, m', same => by
    simp only [taggedEntries, replace,
      tagged_hide (.serializeMap (.erased m.target)) v ok (.serializeMap (.erased m'.target)) same]
  | .secret _ _, ok, _, _ => by simp [checkTagged, isRecognised] at ok

end

end Hide

/- What was written has been checked. -/

structure Guarded (ryu : Ryu) (ok : SerializerType → Bool) (f g : String → Node → Node) :
    Prop where
  value : ∀ t mask inner j, value ryu t (f mask inner) = some j → ok (.target t) = true
  key : ∀ mask inner s, key ryu (f mask inner) = some s → ok .mapKey = true
  flat : ∀ m mask inner map, flatEntries ryu m (g mask inner) = some map → ok (.flatMap m) = true
  tagged : ∀ m mask inner map,
    taggedEntries ryu m (f mask inner) = some map → ok (.tagged m) = true

section Written

variable {ryu : Ryu} {ok : SerializerType → Bool} {f g : String → Node → Node} {broken : Bool}

theorem keyScalar_check {s : Scalar} {name : String} (written : keyScalar ryu s = some name) :
    checkKey ok broken (.scalar s) = true := by
  cases s <;> simp_all [keyScalar, checkKey]

theorem key_check (guarded : Guarded ryu ok f g) : ∀ (k : Node) (s : String),
    key ryu (replace f g k) = some s → checkKey ok broken k = true
  | .scalar _, _, written => by
    simp only [key, replace] at written
    exact keyScalar_check written
  | .unitVariant _, _, _ => by simp only [checkKey]
  | .newtypeStruct v, s, written | .erased v, s, written => by
    simp only [key, replace] at written
    simp only [checkKey, key_check guarded v s written]
  | .secret mask inner, s, written => by
    simp only [replace] at written
    simp only [checkKey, guarded.key mask inner s written]
  | .some _, _, written | .newtypeVariant _ _, _, written | .seq _, _, written
  | .tupleVariant _ _, _, written | .map _, _, written | .structVariant _ _, _, written
  | .tagged _ _ _, _, written => by
    simp only [key, replace, reduceCtorEq] at written

mutual

theorem value_check (guarded : Guarded ryu ok f g) (t : Target) : ∀ (v : Node) (j : Value),
    value ryu t (replace f g v) = some j → check ok broken t v = true
  | .scalar s, j, written => by
    simp only [value, replace] at written
    simp only [check, written, Option.isSome_some, Bool.or_true]
  | .unitVariant _, _, _ => by simp only [check]
  | .newtypeStruct v, j, written | .some v, j, written => by
    simp only [value, replace] at written
    simp only [check, value_check guarded t v j written]
  | .newtypeVariant _ v, _, written => by
    simp only [value, replace, Option.map_eq_some_iff] at written
    obtain ⟨j, written, -⟩ := written
    simp only [check, value_check guarded t v j written]
  | .seq items, _, written | .tupleVariant _ items, _, written => by
    simp only [value, replace, Option.map_eq_some_iff] at written
    obtain ⟨js, written, -⟩ := written
    simp only [check, values_check guarded t items js written]
  | .map es, _, written => by
    simp only [value, replace, Option.map_eq_some_iff] at written
    obtain ⟨map, written, -⟩ := written
    simp only [check, entries_check guarded (.serializeMap t) es map written]
  | .structVariant _ fs, _, written => by
    simp only [value, replace, Option.map_eq_some_iff] at written
    obtain ⟨map, written, -⟩ := written
    simp only [check, fields_check guarded t fs map written]
  | .tagged _ _ v, _, written => by
    simp only [value, replace, Option.map_eq_some_iff] at written
    obtain ⟨map, written, -⟩ := written
    simp only [check, tagged_check guarded (.serializeMap t) v map written]
  | .erased v, j, written => by
    simp only [value, replace] at written
    simp only [check, value_check guarded (.erased t) v j written]
  | .secret mask inner, j, written => by
    simp only [replace] at written
    simp only [check, guarded.value t mask inner j written]

theorem values_check (guarded : Guarded ryu ok f g) (t : Target) :
    ∀ (items : List Node) (js : List Value),
      values ryu t (replaceItems f g items) = some js → checkItems ok broken t items = true
  | [], _, _ => by simp only [checkItems]
  | v :: rest, _, written => by
    simp only [values, replaceItems, Option.bind_eq_bind, Option.bind_eq_some_iff] at written
    obtain ⟨j, first, js, later, -⟩ := written
    simp only [checkItems, value_check guarded t v j first, values_check guarded t rest js later,
      Bool.and_true]

theorem fields_check (guarded : Guarded ryu ok f g) (t : Target) :
    ∀ (fs : List (String × Node)) (map : List (String × Value)),
      fields ryu t (replaceFields f g fs) = some map → checkFields ok broken t fs = true
  | [], _, _ => by simp only [checkFields]
  | (_, v) :: rest, _, written => by
    simp only [fields, replaceFields, Option.bind_eq_bind, Option.bind_eq_some_iff] at written
    obtain ⟨j, first, map, later, -⟩ := written
    simp only [checkFields, value_check guarded t v j first,
      fields_check guarded t rest map later, Bool.and_true]

theorem entries_check (guarded : Guarded ryu ok f g) (m : MapType) :
    ∀ (es : List Entry) (map : List (String × Value)),
      entries ryu m (replaceEntries f g es) = some map → checkEntries ok broken m es = true
  | [], _, _ => by simp only [checkEntries]
  | .entry k v :: rest, _, written => by
    simp only [entries, replaceEntries, Option.bind_eq_bind, Option.bind_eq_some_iff] at written
    obtain ⟨name, named, j, first, map, later, -⟩ := written
    simp only [checkEntries, key_check guarded k name named,
      value_check guarded m.target v j first, entries_check guarded m rest map later,
      Bool.and_true]
  | .flatten v :: rest, _, written => by
    simp only [entries, replaceEntries, Option.bind_eq_bind, Option.bind_eq_some_iff] at written
    obtain ⟨map, first, others, later, -⟩ := written
    simp only [checkEntries, flat_check guarded m v map first,
      entries_check guarded m rest others later, Bool.and_true]

theorem flat_check (guarded : Guarded ryu ok f g) (m : MapType) :
    ∀ (v : Node) (map : List (String × Value)),
      flatEntries ryu m (replaceFlat f g v) = some map → checkFlat ok broken m v = true
  | .scalar s, _, written => by
    cases s <;> simp only [flatEntries, replaceFlat, reduceCtorEq] at written <;>
      simp only [checkFlat]
  | .unitVariant _, _, written | .seq _, _, written => by
    simp only [flatEntries, replaceFlat, reduceCtorEq] at written
  | .newtypeStruct v, map, written | .some v, map, written => by
    simp only [flatEntries, replaceFlat] at written
    simp only [checkFlat, flat_check guarded m v map written]
  | .newtypeVariant _ v, _, written => by
    simp only [flatEntries, replaceFlat, Option.map_eq_some_iff] at written
    obtain ⟨j, written, -⟩ := written
    simp only [checkFlat, value_check guarded m.target v j written]
  | .tupleVariant _ items, _, written => by
    simp only [flatEntries, replaceFlat, Option.map_eq_some_iff] at written
    obtain ⟨js, written, -⟩ := written
    simp only [checkFlat, values_check guarded .content items js written]
  | .map es, map, written => by
    simp only [flatEntries, replaceFlat] at written
    simp only [checkFlat, entries_check guarded (.flatMap m) es map written]
  | .structVariant _ fs, _, written => by
    simp only [flatEntries, replaceFlat, Option.map_eq_some_iff] at written
    obtain ⟨map, written, -⟩ := written
    simp only [checkFlat, fields_check guarded .content fs map written]
  | .tagged _ _ v, _, written => by
    simp only [flatEntries, replaceFlat, Option.map_eq_some_iff] at written
    obtain ⟨map, written, -⟩ := written
    simp only [checkFlat, tagged_check guarded (.flatMap m) v map written]
  | .erased v, map, written => by
    simp only [flatEntries, replaceFlat] at written
    simp only [checkFlat, flat_check guarded (.serializeMap (.erased m.target)) v map written]
  | .secret mask inner, map, written => by
    simp only [replaceFlat] at written
    simp only [checkFlat, guarded.flat m mask inner map written]

theorem tagged_check (guarded : Guarded ryu ok f g) (m : MapType) :
    ∀ (v : Node) (map : List (String × Value)),
      taggedEntries ryu m (replace f g v) = some map → checkTagged ok broken m v = true
  | .scalar s, _, written => by
    cases s <;> simp only [taggedEntries, replace, reduceCtorEq] at written <;>
      simp only [checkTagged]
  | .some _, _, written | .seq _, _, written => by
    simp only [taggedEntries, replace, reduceCtorEq] at written
  | .unitVariant _, _, _ => by simp only [checkTagged]
  | .newtypeStruct v, map, written => by
    simp only [taggedEntries, replace] at written
    simp only [checkTagged, tagged_check guarded m v map written]
  | .newtypeVariant _ v, _, written => by
    simp only [taggedEntries, replace, Option.map_eq_some_iff] at written
    obtain ⟨j, written, -⟩ := written
    simp only [checkTagged, value_check guarded m.target v j written]
  | .tupleVariant _ items, _, written => by
    simp only [taggedEntries, replace, Option.map_eq_some_iff] at written
    obtain ⟨js, written, -⟩ := written
    simp only [checkTagged, values_check guarded .content items js written]
  | .map es, map, written => by
    simp only [taggedEntries, replace] at written
    simp only [checkTagged, entries_check guarded m es map written]
  | .structVariant _ fs, _, written => by
    simp only [taggedEntries, replace, Option.map_eq_some_iff] at written
    obtain ⟨map, written, -⟩ := written
    simp only [checkTagged, fields_check guarded .content fs map written]
  | .tagged _ _ v, _, written => by
    simp only [taggedEntries, replace, Option.map_eq_some_iff] at written
    obtain ⟨map, written, -⟩ := written
    simp only [checkTagged, tagged_check guarded m v map written]
  | .erased v, map, written => by
    simp only [taggedEntries, replace] at written
    simp only [checkTagged, tagged_check guarded (.serializeMap (.erased m.target)) v map written]
  | .secret mask inner, map, written => by
    simp only [replace] at written
    simp only [checkTagged, guarded.tagged m mask inner map written]

end

end Written

/- What can be written is written, with the right contents of the secrets. -/

section Writable

variable (ryu : Ryu)

theorem key_written : ∀ k : Node, checkKey anywhere false k = true →
    ∃ k' name, replace blank blank k' = replace blank blank k ∧ key ryu k' = some name
  | .scalar s, ok => by
    have named : ∃ name, keyScalar ryu s = some name := by
      cases s <;> simp_all [keyScalar, checkKey]
    obtain ⟨name, named⟩ := named
    exact ⟨.scalar s, name, rfl, named⟩
  | .unitVariant variant, _ => ⟨.unitVariant variant, variant, rfl, rfl⟩
  | .newtypeStruct v, ok => by
    obtain ⟨w, name, same, named⟩ := key_written v ok
    exact ⟨.newtypeStruct w, name, by simp only [replace, same], named⟩
  | .erased v, ok => by
    obtain ⟨w, name, same, named⟩ := key_written v ok
    exact ⟨.erased w, name, by simp only [replace, same], named⟩
  | .secret mask _, _ => ⟨.secret mask (.scalar (.str "")), "", rfl, rfl⟩

mutual

theorem value_written (t : Target) : ∀ v : Node, check anywhere false t v = true →
    ∃ w j, replace blank blank w = replace blank blank v ∧ value ryu t w = some j
  | .scalar s, ok => by
    have written : (scalar t s).isSome = true := ok
    obtain ⟨j, written⟩ := Option.isSome_iff_exists.mp written
    exact ⟨.scalar s, j, rfl, written⟩
  | .unitVariant variant, _ => ⟨.unitVariant variant, .string variant, rfl, rfl⟩
  | .newtypeStruct v, ok => by
    obtain ⟨w, j, same, written⟩ := value_written t v ok
    exact ⟨.newtypeStruct w, j, by simp only [replace, same], written⟩
  | .some v, ok => by
    obtain ⟨w, j, same, written⟩ := value_written t v ok
    exact ⟨.some w, j, by simp only [replace, same], written⟩
  | .newtypeVariant variant v, ok => by
    obtain ⟨w, j, same, written⟩ := value_written t v ok
    exact ⟨.newtypeVariant variant w, _, by simp only [replace, same],
      congrArg (Option.map _) written⟩
  | .seq items, ok => by
    obtain ⟨ws, js, same, written⟩ := values_written t items ok
    exact ⟨.seq ws, _, by simp only [replace, same], congrArg (Option.map _) written⟩
  | .tupleVariant variant items, ok => by
    obtain ⟨ws, js, same, written⟩ := values_written t items ok
    exact ⟨.tupleVariant variant ws, _, by simp only [replace, same],
      congrArg (Option.map _) written⟩
  | .map es, ok => by
    obtain ⟨ws, map, same, written⟩ := entries_written (.serializeMap t) es ok
    exact ⟨.map ws, _, by simp only [replace, same], congrArg (Option.map _) written⟩
  | .structVariant variant fs, ok => by
    obtain ⟨ws, map, same, written⟩ := fields_written t fs ok
    exact ⟨.structVariant variant ws, _, by simp only [replace, same],
      congrArg (Option.map _) written⟩
  | .tagged tag variant v, ok => by
    obtain ⟨w, map, same, written⟩ := tagged_written (.serializeMap t) v ok
    exact ⟨.tagged tag variant w, _, by simp only [replace, same],
      congrArg (Option.map _) written⟩
  | .erased v, ok => by
    obtain ⟨w, j, same, written⟩ := value_written (.erased t) v ok
    exact ⟨.erased w, j, by simp only [replace, same], written⟩
  | .secret mask _, _ => by
    have written : ∃ j, value ryu t (.secret mask (.scalar .unit)) = some j := by
      have unit : scalar t .unit = some .null := by
        rw [scalar_eq]
        split <;> rfl
      simp only [value, piiSerialize, unit]
      split
      · exact ⟨_, rfl⟩
      · split <;> exact ⟨_, rfl⟩
    obtain ⟨j, written⟩ := written
    exact ⟨.secret mask (.scalar .unit), j, rfl, written⟩

theorem values_written (t : Target) : ∀ items : List Node,
    checkItems anywhere false t items = true →
      ∃ ws js, replaceItems blank blank ws = replaceItems blank blank items ∧
        values ryu t ws = some js
  | [], _ => ⟨[], [], rfl, rfl⟩
  | v :: rest, ok => by
    simp only [checkItems, Bool.and_eq_true] at ok
    obtain ⟨w, j, same, written⟩ := value_written t v ok.1
    obtain ⟨ws, js, others, later⟩ := values_written t rest ok.2
    exact ⟨w :: ws, j :: js, by simp only [replaceItems, same, others],
      by simp only [values, written, later]; rfl⟩

theorem fields_written (t : Target) : ∀ fs : List (String × Node),
    checkFields anywhere false t fs = true →
      ∃ ws map, replaceFields blank blank ws = replaceFields blank blank fs ∧
        fields ryu t ws = some map
  | [], _ => ⟨[], [], rfl, rfl⟩
  | (name, v) :: rest, ok => by
    simp only [checkFields, Bool.and_eq_true] at ok
    obtain ⟨w, j, same, written⟩ := value_written t v ok.1
    obtain ⟨ws, map, others, later⟩ := fields_written t rest ok.2
    exact ⟨(name, w) :: ws, (name, j) :: map, by simp only [replaceFields, same, others],
      by simp only [fields, written, later]; rfl⟩

theorem entries_written (m : MapType) : ∀ es : List Entry,
    checkEntries anywhere false m es = true →
      ∃ ws map, replaceEntries blank blank ws = replaceEntries blank blank es ∧
        entries ryu m ws = some map
  | [], _ => ⟨[], [], rfl, rfl⟩
  | .entry k v :: rest, ok => by
    simp only [checkEntries, Bool.and_eq_true] at ok
    obtain ⟨k', name, sameKey, named⟩ := key_written ryu k ok.1.1
    obtain ⟨w, j, same, written⟩ := value_written m.target v ok.1.2
    obtain ⟨ws, map, others, later⟩ := entries_written m rest ok.2
    exact ⟨.entry k' w :: ws, (name, j) :: map,
      by simp only [replaceEntries, sameKey, same, others],
      by simp only [entries, named, written, later]; rfl⟩
  | .flatten v :: rest, ok => by
    simp only [checkEntries, Bool.and_eq_true] at ok
    obtain ⟨w, first, same, written⟩ := flat_written m v ok.1
    obtain ⟨ws, map, others, later⟩ := entries_written m rest ok.2
    exact ⟨.flatten w :: ws, first ++ map, by simp only [replaceEntries, same, others],
      by simp only [entries, written, later]; rfl⟩

theorem flat_written (m : MapType) : ∀ v : Node, checkFlat anywhere false m v = true →
    ∃ w map, replaceFlat blank blank w = replaceFlat blank blank v ∧
      flatEntries ryu m w = some map
  | .scalar .none, _ => ⟨.scalar .none, [], rfl, rfl⟩
  | .scalar .unit, _ => ⟨.scalar .unit, [], rfl, rfl⟩
  | .newtypeStruct v, ok => by
    obtain ⟨w, map, same, written⟩ := flat_written m v ok
    exact ⟨.newtypeStruct w, map, by simp only [replaceFlat, same], written⟩
  | .some v, ok => by
    obtain ⟨w, map, same, written⟩ := flat_written m v ok
    exact ⟨.some w, map, by simp only [replaceFlat, same], written⟩
  | .newtypeVariant variant v, ok => by
    obtain ⟨w, j, same, written⟩ := value_written m.target v ok
    exact ⟨.newtypeVariant variant w, _, by simp only [replaceFlat, same],
      congrArg (Option.map _) written⟩
  | .tupleVariant variant items, ok => by
    obtain ⟨ws, js, same, written⟩ := values_written .content items ok
    exact ⟨.tupleVariant variant ws, _, by simp only [replaceFlat, same],
      congrArg (Option.map _) written⟩
  | .map es, ok => by
    obtain ⟨ws, map, same, written⟩ := entries_written (.flatMap m) es ok
    exact ⟨.map ws, map, by simp only [replaceFlat, same], written⟩
  | .structVariant variant fs, ok => by
    obtain ⟨ws, map, same, written⟩ := fields_written .content fs ok
    exact ⟨.structVariant variant ws, _, by simp only [replaceFlat, same],
      congrArg (Option.map _) written⟩
  | .tagged tag variant v, ok => by
    obtain ⟨w, map, same, written⟩ := tagged_written (.flatMap m) v ok
    exact ⟨.tagged tag variant w, _, by simp only [replaceFlat, same],
      congrArg (Option.map _) written⟩
  | .erased v, ok => by
    obtain ⟨w, map, same, written⟩ := flat_written (.serializeMap (.erased m.target)) v ok
    exact ⟨.erased w, map, by simp only [replaceFlat, same], written⟩
  | .secret mask _, _ => by
    refine ⟨.secret mask (.map []), [], rfl, ?_⟩
    simp [flatEntries, piiSerialize, entries]

theorem tagged_written (m : MapType) : ∀ v : Node, checkTagged anywhere false m v = true →
    ∃ w map, replace blank blank w = replace blank blank v ∧ taggedEntries ryu m w = some map
  | .scalar .unit, _ => ⟨.scalar .unit, [], rfl, rfl⟩
  | .scalar .unitStruct, _ => ⟨.scalar .unitStruct, [], rfl, rfl⟩
  | .unitVariant variant, _ => ⟨.unitVariant variant, _, rfl, rfl⟩
  | .newtypeStruct v, ok => by
    obtain ⟨w, map, same, written⟩ := tagged_written m v ok
    exact ⟨.newtypeStruct w, map, by simp only [replace, same], written⟩
  | .newtypeVariant variant v, ok => by
    obtain ⟨w, j, same, written⟩ := value_written m.target v ok
    exact ⟨.newtypeVariant variant w, _, by simp only [replace, same],
      congrArg (Option.map _) written⟩
  | .tupleVariant variant items, ok => by
    obtain ⟨ws, js, same, written⟩ := values_written .content items ok
    exact ⟨.tupleVariant variant ws, _, by simp only [replace, same],
      congrArg (Option.map _) written⟩
  | .map es, ok => by
    obtain ⟨ws, map, same, written⟩ := entries_written m es ok
    exact ⟨.map ws, map, by simp only [replace, same], written⟩
  | .structVariant variant fs, ok => by
    obtain ⟨ws, map, same, written⟩ := fields_written .content fs ok
    exact ⟨.structVariant variant ws, _, by simp only [replace, same],
      congrArg (Option.map _) written⟩
  | .tagged tag variant v, ok => by
    obtain ⟨w, map, same, written⟩ := tagged_written m v ok
    exact ⟨.tagged tag variant w, _, by simp only [replace, same],
      congrArg (Option.map _) written⟩
  | .erased v, ok => by
    obtain ⟨w, map, same, written⟩ := tagged_written (.serializeMap (.erased m.target)) v ok
    exact ⟨.erased w, map, by simp only [replace, same], written⟩
  | .secret mask _, _ => by
    refine ⟨.secret mask (.map []), [], rfl, ?_⟩
    simp [taggedEntries, piiSerialize, entries]

end

end Writable

/- All in all. -/

section Exact

variable (ryu : Ryu)

def unwritable : Node := .map [.entry (.seq []) (.scalar .unit)]

theorem unwritable_value (t : Target) : value ryu t unwritable = none := rfl

theorem unwritable_guarded :
    Guarded ryu isRecognised (refill unwritable) (refill unwritable) where
  value := by
    intro t mask inner j written
    by_cases direct : t = .pii
    · simp [isRecognised, direct]
    · simp [refill, value, piiSerialize, direct, unwritable_value] at written
  key := by
    intro mask inner s written
    simp [refill, key, piiSerialize, unwritable] at written
  flat := by
    intro m mask inner map written
    by_cases direct : m = .serializeMap .pii
    · simp [isRecognised, direct]
    · simp [refill, flatEntries, piiSerialize, direct, unwritable, entries, key] at written
  tagged := by
    intro m mask inner map written
    simp [refill, taggedEntries, piiSerialize, unwritable, entries, key] at written

theorem anywhere_guarded (f g : String → Node → Node) : Guarded ryu anywhere f g where
  value := fun _ _ _ _ _ => rfl
  key := fun _ _ _ _ => rfl
  flat := fun _ _ _ _ _ => rfl
  tagged := fun _ _ _ _ _ => rfl

variable {ryu}

theorem alike_refl (v : Node) : Alike v v := rfl

theorem alike_fill (content v : Node) : Alike v (fill content v) :=
  (fill_fill (.scalar .unit) content v).symm

theorem Alike.hide {v w : Node} (alike : Alike v w) : hide v = hide w := by
  rw [← hide_fill (.scalar .unit) v, ← hide_fill (.scalar .unit) w]
  exact congrArg Masking.hide alike

theorem Alike.check {v w : Node} (alike : Alike v w) (ok : SerializerType → Bool)
    (broken : Bool) (t : Target) : check ok broken t v = check ok broken t w := by
  rw [← check_fill ok broken (.scalar .unit) t v, ← check_fill ok broken (.scalar .unit) t w]
  exact congrArg (Masking.check ok broken t) alike

theorem masked_of_recognised {v : Node} (recognised : Recognised v) :
    maskedSerialize ryu v = toValue ryu (hide v) :=
  value_hide ryu .pii v recognised .json rfl

theorem recognised_of_written {v : Node} {j : Value}
    (written : maskedSerialize ryu (fill unwritable v) = some j) : Recognised v :=
  value_check (unwritable_guarded ryu) .pii v j written

theorem writable_of_written {v : Node} {j : Value} (written : maskedSerialize ryu v = some j) :
    Writable v := by
  have self : maskedSerialize ryu (replace .secret .secret v) = some j := by
    rw [replace_self, written]
  exact value_check (anywhere_guarded ryu .secret .secret) .pii v j self

theorem writable_of_hidden {v : Node} {j : Value} (written : toValue ryu (hide v) = some j) :
    Writable v := by
  have checked : check anywhere false .json v = true :=
    value_check (anywhere_guarded ryu maskString emptyMap) .json v j written
  have same : Target.pii.collects = Target.json.collects := rfl
  exact (check_anywhere false same v).trans checked

theorem written_of_writable {v : Node} (writable : Writable v) :
    ∃ w j, Alike v w ∧ maskedSerialize ryu w = some j := by
  obtain ⟨w, j, same, written⟩ := value_written ryu .pii v writable
  exact ⟨w, j, same.symm, written⟩

/-- Whatever its secrets hold, the value is written with what they hold hidden, and so as any
value that differs only in its secrets, just in these two cases: if every secret stands where
its serializer is recognised, or if the value cannot be written at all. -/
theorem masked_exactly_when (ryu : Ryu) (v : Node) :
    ((∀ w, Alike v w → maskedSerialize ryu w = toValue ryu (hide w)) ↔
      Recognised v ∨ ¬ Writable v) ∧
    ((∀ w, Alike v w → maskedSerialize ryu w = maskedSerialize ryu v) ↔
      Recognised v ∨ ¬ Writable v) := by
  have hides : Recognised v ∨ ¬ Writable v →
      ∀ w, Alike v w → maskedSerialize ryu w = toValue ryu (hide w) := by
    intro condition w alike
    rcases condition with recognised | unwritable
    · exact masked_of_recognised ((alike.check _ _ _).symm.trans recognised)
    · have same : ¬ Writable w := fun writable =>
        unwritable ((alike.check _ _ _).trans writable)
      have masked : maskedSerialize ryu w = none :=
        Option.eq_none_iff_forall_ne_some.mpr fun j written => same (writable_of_written written)
      have hidden : toValue ryu (hide w) = none :=
        Option.eq_none_iff_forall_ne_some.mpr fun j written => same (writable_of_hidden written)
      rw [masked, hidden]
  have agrees : (∀ w, Alike v w → maskedSerialize ryu w = toValue ryu (hide w)) →
      ∀ w, Alike v w → maskedSerialize ryu w = maskedSerialize ryu v := by
    intro hidden w alike
    rw [hidden w alike, hidden v (alike_refl v), alike.hide]
  have needed : (∀ w, Alike v w → maskedSerialize ryu w = maskedSerialize ryu v) →
      Recognised v ∨ ¬ Writable v := by
    intro agree
    by_cases writable : Writable v
    · obtain ⟨w, j, alike, written⟩ := written_of_writable writable
      have filled := agree (fill unwritable v) (alike_fill unwritable v)
      rw [← agree w alike, written] at filled
      exact .inl (recognised_of_written filled)
    · exact .inr writable
  exact ⟨⟨fun hidden => needed (agrees hidden), hides⟩,
    ⟨needed, fun condition => agrees (hides condition)⟩⟩

end Exact

def decimal : Ryu where
  format32 x := toString x
  format64 x := toString x

def str (s : String) : Node := .scalar (.str s)

/- For one content alone the two can agree by accident: a key that is its own mask. -/

def unseen : Node := .map [.entry (.secret "***" (str "***")) (str "v")]

example : maskedSerialize decimal unseen = toValue decimal (hide unseen) ∧
    ¬ Recognised unseen ∧ Writable unseen := ⟨rfl, nofun, rfl⟩

/- A card number in a struct that is flattened itself. -/

def paymentMethod : Node :=
  .map [.entry (str "id") (str "pm_1"), .flatten (.map [.entry (str "kind") (str "card"),
    .flatten (.secret "*** serde_json::value::Value ***"
      (.map [.entry (str "number") (str "4242424242424242")]))])]

theorem flattened_secret_shown :
    maskedSerialize decimal paymentMethod = some (.object [("id", .string "pm_1"),
      ("kind", .string "card"), ("number", .string "4242424242424242")]) ∧
    toValue decimal (hide paymentMethod) =
      some (.object [("id", .string "pm_1"), ("kind", .string "card")]) ∧
    ¬ ∀ v, maskedSerialize decimal v = toValue decimal (hide v) := by
  have shown : maskedSerialize decimal paymentMethod = some (.object [("id", .string "pm_1"),
      ("kind", .string "card"), ("number", .string "4242424242424242")]) := rfl
  have hidden : toValue decimal (hide paymentMethod) =
      some (.object [("id", .string "pm_1"), ("kind", .string "card")]) := rfl
  refine ⟨shown, hidden, fun always => ?_⟩
  have same := always paymentMethod
  rw [shown, hidden] at same
  cases same

end Mercado.Masking
