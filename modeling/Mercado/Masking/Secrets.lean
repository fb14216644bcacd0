import Mercado.Masking.Serializer

/-! The secrets of a value: what is to be shown of them, and where they stand. -/
namespace Mercado.Masking
open SerdeJson (Value)

mutual

/-- Every secret replaced: `f` says by what, and `g` where the secret itself is flattened. -/
def replace (f g : String → Node → Node) : Node → Node
  | .scalar s => .scalar s
  | .unitVariant variant => .unitVariant variant
  | .newtypeStruct v => .newtypeStruct (replace f g v)
  | .some v => .some (replace f g v)
  | .newtypeVariant variant v => .newtypeVariant variant (replace f g v)
  | .seq items => .seq (replaceItems f g items)
  | .tupleVariant variant items => .tupleVariant variant (replaceItems f g items)
  | .map es => .map (replaceEntries f g es)
  | .structVariant variant fs => .structVariant variant (replaceFields f g fs)
  | .tagged tag variant v => .tagged tag variant (replace f g v)
  | .erased v => .erased (replace f g v)
  | .secret mask inner => f mask inner

def replaceItems (f g : String → Node → Node) : List Node → List Node
  | [] => []
  | v :: rest => replace f g v :: replaceItems f g rest

def replaceEntries (f g : String → Node → Node) : List Entry → List Entry
  | [] => []
  | .entry k v :: rest => .entry (replace f g k) (replace f g v) :: replaceEntries f g rest
  | .flatten v :: rest => .flatten (replaceFlat f g v) :: replaceEntries f g rest

def replaceFields (f g : String → Node → Node) : List (String × Node) → List (String × Node)
  | [] => []
  | (name, v) :: rest => (name, replace f g v) :: replaceFields f g rest

def replaceFlat (f g : String → Node → Node) : Node → Node
  | .scalar s => .scalar s
  | .unitVariant variant => .unitVariant variant
  | .newtypeStruct v => .newtypeStruct (replaceFlat f g v)
  | .some v => .some (replaceFlat f g v)
  | .newtypeVariant variant v => .newtypeVariant variant (replace f g v)
  | .seq items => .seq (replaceItems f g items)
  | .tupleVariant variant items => .tupleVariant variant (replaceItems f g items)
  | .map es => .map (replaceEntries f g es)
  | .structVariant variant fs => .structVariant variant (replaceFields f g fs)
  | .tagged tag variant v => .tagged tag variant (replace f g v)
  | .erased v => .erased (replaceFlat f g v)
  | .secret mask inner => g mask inner

end

def maskString (mask : String) (_ : Node) : Node := .scalar (.str mask)

def emptyMap (_ : String) (_ : Node) : Node := .map []

/-- What is to be shown of a value: the masks of its secrets, and nothing of those that are
flattened. -/
def hide : Node → Node := replace maskString emptyMap

def refill (content : Node) (mask : String) (_ : Node) : Node := .secret mask content

def fill (content : Node) : Node → Node := replace (refill content) (refill content)

abbrev blank : String → Node → Node := refill (.scalar .unit)

/-- Two values that differ only in what their secrets hold. -/
def Alike (v w : Node) : Prop := replace blank blank v = replace blank blank w

/- Whether the secrets stand where they may, `ok` of a serializer, and whether the rest can be
written, `broken` where it cannot. -/

def checkKey (ok : SerializerType → Bool) (broken : Bool) : Node → Bool
  | .scalar (.i128 _) | .scalar (.u128 _) | .scalar (.bytes _) | .scalar .unit
  | .scalar .unitStruct | .scalar .none => broken
  | .scalar (.f32 x) => broken || x.isFinite
  | .scalar (.f64 x) => broken || x.isFinite
  | .scalar _ | .unitVariant _ => true
  | .newtypeStruct v => checkKey ok broken v
  | .erased v => checkKey ok broken v
  | .secret _ _ => ok .mapKey
  | .some _ | .newtypeVariant _ _ | .seq _ | .tupleVariant _ _ | .map _ | .structVariant _ _
  | .tagged _ _ _ => broken

mutual

def check (ok : SerializerType → Bool) (broken : Bool) (t : Target) : Node → Bool
  | .scalar s => broken || (scalar t s).isSome
  | .unitVariant _ => true
  | .newtypeStruct v => check ok broken t v
  | .some v => check ok broken t v
  | .newtypeVariant _ v => check ok broken t v
  | .seq items => checkItems ok broken t items
  | .tupleVariant _ items => checkItems ok broken t items
  | .map es => checkEntries ok broken (.serializeMap t) es
  | .structVariant _ fs => checkFields ok broken t fs
  | .tagged _ _ v => checkTagged ok broken (.serializeMap t) v
  | .erased v => check ok broken (.erased t) v
  | .secret _ _ => ok (.target t)

def checkItems (ok : SerializerType → Bool) (broken : Bool) (t : Target) : List Node → Bool
  | [] => true
  | v :: rest => check ok broken t v && checkItems ok broken t rest

def checkFields (ok : SerializerType → Bool) (broken : Bool) (t : Target) :
    List (String × Node) → Bool
  | [] => true
  | (_, v) :: rest => check ok broken t v && checkFields ok broken t rest

def checkEntries (ok : SerializerType → Bool) (broken : Bool) (m : MapType) : List Entry → Bool
  | [] => true
  | .entry k v :: rest =>
    checkKey ok broken k && check ok broken m.target v && checkEntries ok broken m rest
  | .flatten v :: rest => checkFlat ok broken m v && checkEntries ok broken m rest

def checkFlat (ok : SerializerType → Bool) (broken : Bool) (m : MapType) : Node → Bool
  | .scalar .none | .scalar .unit => true
  | .scalar _ | .unitVariant _ | .seq _ => broken
  | .newtypeStruct v => checkFlat ok broken m v
  | .some v => checkFlat ok broken m v
  | .newtypeVariant _ v => check ok broken m.target v
  | .tupleVariant _ items => checkItems ok broken .content items
  | .map es => checkEntries ok broken (.flatMap m) es
  | .structVariant _ fs => checkFields ok broken .content fs
  | .tagged _ _ v => checkTagged ok broken (.flatMap m) v
  | .erased v => checkFlat ok broken (.serializeMap (.erased m.target)) v
  | .secret _ _ => ok (.flatMap m)

def checkTagged (ok : SerializerType → Bool) (broken : Bool) (m : MapType) : Node → Bool
  | .scalar .unit | .scalar .unitStruct => true
  | .scalar _ | .some _ | .seq _ => broken
  | .unitVariant _ => true
  | .newtypeStruct v => checkTagged ok broken m v
  | .newtypeVariant _ v => check ok broken m.target v
  | .tupleVariant _ items => checkItems ok broken .content items
  | .map es => checkEntries ok broken m es
  | .structVariant _ fs => checkFields ok broken .content fs
  | .tagged _ _ v => checkTagged ok broken m v
  | .erased v => checkTagged ok broken (.serializeMap (.erased m.target)) v
  | .secret _ _ => ok (.tagged m)

end

abbrev anywhere (_ : SerializerType) : Bool := true

/-- Every secret stands where its serializer is recognised. -/
def Recognised (v : Node) : Prop := check isRecognised true .pii v = true

/-- The value can be written, for some contents of its secrets. -/
def Writable (v : Node) : Prop := check anywhere false .pii v = true

section Replace

variable {f g : String → Node → Node}

mutual

theorem replace_fill (content : Node) : ∀ v : Node,
    replace f g (replace (refill content) (refill content) v) =
      replace (fun mask _ => f mask content) (fun mask _ => g mask content) v
  | .scalar _ | .unitVariant _ => by simp only [replace]
  | .newtypeStruct v | .some v | .newtypeVariant _ v | .tagged _ _ v | .erased v => by
    simp only [replace, replace_fill content v]
  | .seq items | .tupleVariant _ items => by
    simp only [replace, replaceItems_fill content items]
  | .map es => by simp only [replace, replaceEntries_fill content es]
  | .structVariant _ fs => by simp only [replace, replaceFields_fill content fs]
  | .secret _ _ => by simp only [replace, refill]

theorem replaceItems_fill (content : Node) : ∀ items : List Node,
    replaceItems f g (replaceItems (refill content) (refill content) items) =
      replaceItems (fun mask _ => f mask content) (fun mask _ => g mask content) items
  | [] => by simp only [replaceItems]
  | v :: rest => by
    simp only [replaceItems, replace_fill content v, replaceItems_fill content rest]

theorem replaceEntries_fill (content : Node) : ∀ es : List Entry,
    replaceEntries f g (replaceEntries (refill content) (refill content) es) =
      replaceEntries (fun mask _ => f mask content) (fun mask _ => g mask content) es
  | [] => by simp only [replaceEntries]
  | .entry k v :: rest => by
    simp only [replaceEntries, replace_fill content k, replace_fill content v,
      replaceEntries_fill content rest]
  | .flatten v :: rest => by
    simp only [replaceEntries, replaceFlat_fill content v, replaceEntries_fill content rest]

theorem replaceFields_fill (content : Node) : ∀ fs : List (String × Node),
    replaceFields f g (replaceFields (refill content) (refill content) fs) =
      replaceFields (fun mask _ => f mask content) (fun mask _ => g mask content) fs
  | [] => by simp only [replaceFields]
  | (_, v) :: rest => by
    simp only [replaceFields, replace_fill content v, replaceFields_fill content rest]

theorem replaceFlat_fill (content : Node) : ∀ v : Node,
    replaceFlat f g (replaceFlat (refill content) (refill content) v) =
      replaceFlat (fun mask _ => f mask content) (fun mask _ => g mask content) v
  | .scalar _ | .unitVariant _ => by simp only [replaceFlat]
  | .newtypeStruct v | .some v | .erased v => by
    simp only [replaceFlat, replaceFlat_fill content v]
  | .newtypeVariant _ v | .tagged _ _ v => by simp only [replaceFlat, replace_fill content v]
  | .seq items | .tupleVariant _ items => by
    simp only [replaceFlat, replaceItems_fill content items]
  | .map es => by simp only [replaceFlat, replaceEntries_fill content es]
  | .structVariant _ fs => by simp only [replaceFlat, replaceFields_fill content fs]
  | .secret _ _ => by simp only [replaceFlat, refill]

end

mutual

theorem replace_self : ∀ v : Node, replace .secret .secret v = v
  | .scalar _ | .unitVariant _ | .secret _ _ => by simp only [replace]
  | .newtypeStruct v | .some v | .newtypeVariant _ v | .tagged _ _ v | .erased v => by
    simp only [replace, replace_self v]
  | .seq items | .tupleVariant _ items => by simp only [replace, replaceItems_self items]
  | .map es => by simp only [replace, replaceEntries_self es]
  | .structVariant _ fs => by simp only [replace, replaceFields_self fs]

theorem replaceItems_self : ∀ items : List Node, replaceItems .secret .secret items = items
  | [] => by simp only [replaceItems]
  | v :: rest => by simp only [replaceItems, replace_self v, replaceItems_self rest]

theorem replaceEntries_self : ∀ es : List Entry, replaceEntries .secret .secret es = es
  | [] => by simp only [replaceEntries]
  | .entry k v :: rest => by
    simp only [replaceEntries, replace_self k, replace_self v, replaceEntries_self rest]
  | .flatten v :: rest => by
    simp only [replaceEntries, replaceFlat_self v, replaceEntries_self rest]

theorem replaceFields_self : ∀ fs : List (String × Node),
    replaceFields .secret .secret fs = fs
  | [] => by simp only [replaceFields]
  | (_, v) :: rest => by simp only [replaceFields, replace_self v, replaceFields_self rest]

theorem replaceFlat_self : ∀ v : Node, replaceFlat .secret .secret v = v
  | .scalar _ | .unitVariant _ | .secret _ _ => by simp only [replaceFlat]
  | .newtypeStruct v | .some v | .erased v => by simp only [replaceFlat, replaceFlat_self v]
  | .newtypeVariant _ v | .tagged _ _ v => by simp only [replaceFlat, replace_self v]
  | .seq items | .tupleVariant _ items => by simp only [replaceFlat, replaceItems_self items]
  | .map es => by simp only [replaceFlat, replaceEntries_self es]
  | .structVariant _ fs => by simp only [replaceFlat, replaceFields_self fs]

end

theorem hide_fill (content v : Node) : hide (fill content v) = hide v :=
  replace_fill content v

theorem fill_fill (x y v : Node) : fill x (fill y v) = fill x v :=
  replace_fill y v

end Replace

/- The positions of the secrets, whatever they hold. -/

section Positions

variable (ok : SerializerType → Bool) (broken : Bool) (content : Node)

theorem checkKey_fill : ∀ k : Node,
    checkKey ok broken (replace (refill content) (refill content) k) = checkKey ok broken k
  | .newtypeStruct v | .erased v => by simp only [checkKey, replace, checkKey_fill v]
  | .scalar _ | .unitVariant _ | .secret _ _ | .some _ | .newtypeVariant _ _ | .seq _
  | .tupleVariant _ _ | .map _ | .structVariant _ _ | .tagged _ _ _ => by
    simp only [checkKey, replace, refill]

mutual

theorem check_fill (t : Target) : ∀ v : Node,
    check ok broken t (replace (refill content) (refill content) v) = check ok broken t v
  | .scalar _ | .unitVariant _ | .secret _ _ => by simp only [check, replace, refill]
  | .newtypeStruct v | .some v | .newtypeVariant _ v => by
    simp only [check, replace, check_fill t v]
  | .seq items | .tupleVariant _ items => by simp only [check, replace, checkItems_fill t items]
  | .map es => by simp only [check, replace, checkEntries_fill (.serializeMap t) es]
  | .structVariant _ fs => by simp only [check, replace, checkFields_fill t fs]
  | .tagged _ _ v => by simp only [check, replace, checkTagged_fill (.serializeMap t) v]
  | .erased v => by simp only [check, replace, check_fill (.erased t) v]

theorem checkItems_fill (t : Target) : ∀ items : List Node,
    checkItems ok broken t (replaceItems (refill content) (refill content) items) =
      checkItems ok broken t items
  | [] => by simp only [checkItems, replaceItems]
  | v :: rest => by
    simp only [checkItems, replaceItems, check_fill t v, checkItems_fill t rest]

theorem checkFields_fill (t : Target) : ∀ fs : List (String × Node),
    checkFields ok broken t (replaceFields (refill content) (refill content) fs) =
      checkFields ok broken t fs
  | [] => by simp only [checkFields, replaceFields]
  | (_, v) :: rest => by
    simp only [checkFields, replaceFields, check_fill t v, checkFields_fill t rest]

theorem checkEntries_fill (m : MapType) : ∀ es : List Entry,
    checkEntries ok broken m (replaceEntries (refill content) (refill content) es) =
      checkEntries ok broken m es
  | [] => by simp only [checkEntries, replaceEntries]
  | .entry k v :: rest => by
    simp only [checkEntries, replaceEntries, checkKey_fill ok broken content k,
      check_fill m.target v, checkEntries_fill m rest]
  | .flatten v :: rest => by
    simp only [checkEntries, replaceEntries, checkFlat_fill m v, checkEntries_fill m rest]

theorem checkFlat_fill (m : MapType) : ∀ v : Node,
    checkFlat ok broken m (replaceFlat (refill content) (refill content) v) =
      checkFlat ok broken m v
  | .scalar s => by cases s <;> simp only [checkFlat, replaceFlat]
  | .unitVariant _ | .seq _ | .secret _ _ => by simp only [checkFlat, replaceFlat, refill]
  | .newtypeStruct v | .some v => by simp only [checkFlat, replaceFlat, checkFlat_fill m v]
  | .newtypeVariant _ v => by simp only [checkFlat, replaceFlat, check_fill m.target v]
  | .tupleVariant _ items => by
    simp only [checkFlat, replaceFlat, checkItems_fill .content items]
  | .map es => by simp only [checkFlat, replaceFlat, checkEntries_fill (.flatMap m) es]
  | .structVariant _ fs => by simp only [checkFlat, replaceFlat, checkFields_fill .content fs]
  | .tagged _ _ v => by simp only [checkFlat, replaceFlat, checkTagged_fill (.flatMap m) v]
  | .erased v => by
    simp only [checkFlat, replaceFlat, checkFlat_fill (.serializeMap (.erased m.target)) v]

theorem checkTagged_fill (m : MapType) : ∀ v : Node,
    checkTagged ok broken m (replace (refill content) (refill content) v) =
      checkTagged ok broken m v
  | .scalar s => by cases s <;> simp only [checkTagged, replace]
  | .unitVariant _ | .some _ | .seq _ | .secret _ _ => by
    simp only [checkTagged, replace, refill]
  | .newtypeStruct v | .tagged _ _ v => by
    simp only [checkTagged, replace, checkTagged_fill m v]
  | .newtypeVariant _ v => by simp only [checkTagged, replace, check_fill m.target v]
  | .tupleVariant _ items => by
    simp only [checkTagged, replace, checkItems_fill .content items]
  | .map es => by simp only [checkTagged, replace, checkEntries_fill m es]
  | .structVariant _ fs => by simp only [checkTagged, replace, checkFields_fill .content fs]
  | .erased v => by
    simp only [checkTagged, replace, checkTagged_fill (.serializeMap (.erased m.target)) v]

end

end Positions

section Anywhere

variable (broken : Bool)

mutual

theorem check_anywhere {t t' : Target} (same : t.collects = t'.collects) : ∀ v : Node,
    check anywhere broken t v = check anywhere broken t' v
  | .scalar s => by simp only [check, scalar_same same s]
  | .unitVariant _ | .secret _ _ => by simp only [check]
  | .newtypeStruct v | .some v | .newtypeVariant _ v => by
    simp only [check, check_anywhere same v]
  | .seq items | .tupleVariant _ items => by simp only [check, checkItems_anywhere same items]
  | .map es => by
    have inner : (MapType.serializeMap t).target.collects =
        (MapType.serializeMap t').target.collects := same
    simp only [check, checkEntries_anywhere inner es]
  | .structVariant _ fs => by simp only [check, checkFields_anywhere same fs]
  | .tagged _ _ v => by
    have inner : (MapType.serializeMap t).target.collects =
        (MapType.serializeMap t').target.collects := same
    simp only [check, checkTagged_anywhere inner v]
  | .erased v => by
    have inner : (Target.erased t).collects = (Target.erased t').collects := same
    simp only [check, check_anywhere inner v]

theorem checkItems_anywhere {t t' : Target} (same : t.collects = t'.collects) :
    ∀ items : List Node, checkItems anywhere broken t items = checkItems anywhere broken t' items
  | [] => by simp only [checkItems]
  | v :: rest => by
    simp only [checkItems, check_anywhere same v, checkItems_anywhere same rest]

theorem checkFields_anywhere {t t' : Target} (same : t.collects = t'.collects) :
    ∀ fs : List (String × Node),
      checkFields anywhere broken t fs = checkFields anywhere broken t' fs
  | [] => by simp only [checkFields]
  | (_, v) :: rest => by
    simp only [checkFields, check_anywhere same v, checkFields_anywhere same rest]

theorem checkEntries_anywhere {m m' : MapType} (same : m.target.collects = m'.target.collects) :
    ∀ es : List Entry, checkEntries anywhere broken m es = checkEntries anywhere broken m' es
  | [] => by simp only [checkEntries]
  | .entry _ v :: rest => by
    simp only [checkEntries, check_anywhere same v, checkEntries_anywhere same rest]
  | .flatten v :: rest => by
    simp only [checkEntries, checkFlat_anywhere same v, checkEntries_anywhere same rest]

theorem checkFlat_anywhere {m m' : MapType} (same : m.target.collects = m'.target.collects) :
    ∀ v : Node, checkFlat anywhere broken m v = checkFlat anywhere broken m' v
  | .scalar s => by cases s <;> simp only [checkFlat]
  | .unitVariant _ | .seq _ | .tupleVariant _ _ | .structVariant _ _ | .secret _ _ => by
    simp only [checkFlat]
  | .newtypeStruct v | .some v => by simp only [checkFlat, checkFlat_anywhere same v]
  | .newtypeVariant _ v => by simp only [checkFlat, check_anywhere same v]
  | .map es => by
    have inner : (MapType.flatMap m).target.collects = (MapType.flatMap m').target.collects := same
    simp only [checkFlat, checkEntries_anywhere inner es]
  | .tagged _ _ v => by
    have inner : (MapType.flatMap m).target.collects = (MapType.flatMap m').target.collects := same
    simp only [checkFlat, checkTagged_anywhere inner v]
  | .erased v => by
    have inner : (MapType.serializeMap (.erased m.target)).target.collects =
        (MapType.serializeMap (.erased m'.target)).target.collects := same
    simp only [checkFlat, checkFlat_anywhere inner v]

theorem checkTagged_anywhere {m m' : MapType} (same : m.target.collects = m'.target.collects) :
    ∀ v : Node, checkTagged anywhere broken m v = checkTagged anywhere broken m' v
  | .scalar s => by cases s <;> simp only [checkTagged]
  | .unitVariant _ | .some _ | .seq _ | .tupleVariant _ _ | .structVariant _ _
  | .secret _ _ => by simp only [checkTagged]
  | .newtypeStruct v | .tagged _ _ v => by simp only [checkTagged, checkTagged_anywhere same v]
  | .newtypeVariant _ v => by simp only [checkTagged, check_anywhere same v]
  | .map es => by simp only [checkTagged, checkEntries_anywhere same es]
  | .erased v => by
    have inner : (MapType.serializeMap (.erased m.target)).target.collects =
        (MapType.serializeMap (.erased m'.target)).target.collects := same
    simp only [checkTagged, checkTagged_anywhere inner v]

end

end Anywhere

end Mercado.Masking
