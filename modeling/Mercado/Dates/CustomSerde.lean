import Mercado.Dates.Format
import Mercado.Scheduler.RoundTrip

/-! Dates as JSON. Each of these modules writes a date, and reads what it should have written. -/
namespace Mercado.CustomSerde
open SerdeJson Calendar Scheduler

/- Reading. -/

/-- What was written is read from text, as a piece or through a reader, or from a `Value` that
is given away or lent. -/
inductive Form where
  | str | reader | value | valueRef
  deriving DecidableEq, Repr

/-- A deserializer, and whether it lends the strings that it has. -/
structure Input where
  value : Value
  lends : Bool

/-- A string in a text is lent if nothing in it is escaped. -/
def Form.input (text : Text) (j : Value) : Form → Except Error Input
  | .str => do
    let value ← text.fromStr (text.toString j)
    return { value, lends := !(text.toString j).toList.contains '\\' }
  | .reader => do
    let value ← text.fromStr (text.toString j)
    return { value, lends := false }
  | .value => .ok { value := j, lends := false }
  | .valueRef => .ok { value := j, lends := true }

/-- `&str`: a string has to be lent. -/
def asStr (input : Input) (j : Value) : Except Error String :=
  if input.lends then asString j else .error .invalidType

def asI64 : Value → Except Error Int
  | .number (.int n) => if -2 ^ 63 ≤ n ∧ n < 2 ^ 63 then .ok n else .error .invalidValue
  | _ => .error .invalidType

structure With (α : Type) where
  serialize : α → Except Error Value
  deserialize : Input → Except Error α

/- The texts of `time`. -/

def withoutTimezone : List Component :=
  [.year, .literal '-', .month, .literal '-', .day, .literal 'T', .hour, .literal ':', .minute,
    .literal ':', .second]

inductive TimePrecision where
  | second | millisecond
  deriving DecidableEq, Repr

def TimePrecision.iso8601 : TimePrecision → List Component
  | .second => withoutTimezone ++ [.literal 'Z']
  | .millisecond => withoutTimezone ++ [.literal '.', .millisecond, .literal 'Z']

def TimePrecision.format (precision : TimePrecision) (t : PrimitiveDateTime) :
    Except String String :=
  let d := DateTime.ofInstant t
  if 0 ≤ d.date.year ∧ d.date.year ≤ 9999 then .ok (Calendar.format precision.iso8601 d)
  else .error "The year component cannot be formatted into the requested format."

/-- What `time` reads as ISO 8601: what is written in UTC, and no date without its `T`. -/
structure Documented (parse : String → Option PrimitiveDateTime) : Prop where
  reads : ∀ d : DateTime, 0 ≤ d.date.year → d.date.year ≤ 9999 →
    parse (Calendar.format TimePrecision.millisecond.iso8601 d) = some d.toMillisecond.instant
  separator : ∀ s t, parse s = some t → 'T' ∈ s.toList

/- The modules. -/

section Modules

variable (parse : String → Option PrimitiveDateTime)

def iso : Iso8601 where
  format := TimePrecision.millisecond.format
  parse := parse

def iso8601 : With PrimitiveDateTime where
  serialize := (iso parse).serialize
  deserialize input := (iso parse).deserialize input.value

def iso8601.option : With (Option PrimitiveDateTime) where
  serialize := ofOption (iso parse).serialize
  deserialize input := asOption (iso parse).deserialize input.value

def iso8601.optionWithoutTimezone : With (Option PrimitiveDateTime) where
  serialize :=
    ofOption fun t => .ok (.string (Calendar.format withoutTimezone (DateTime.ofInstant t)))
  deserialize input := do
    match ← asOption (asStr input) input.value with
    | none => return none
    | some timeString =>
      match Calendar.parse withoutTimezone timeString with
      | some d => return some d.instant
      | none => .error (.custom ("Failed to parse PrimitiveDateTime from " ++ timeString))

def fromUnixTimestamp (n : Int) : Except Error PrimitiveDateTime :=
  if PrimitiveDateTime.valid (n * nanosPerSecond) then .ok (n * nanosPerSecond)
  else .error .invalidValue

def timestamp : With PrimitiveDateTime where
  serialize t := .ok (.number (.int t.unixTimestamp))
  deserialize input := asI64 input.value >>= fromUnixTimestamp

def timestamp.option : With (Option PrimitiveDateTime) where
  serialize := ofOption fun t => .ok (.number (.int t.unixTimestamp))
  deserialize input := do
    match ← asOption asI64 input.value with
    | none => return none
    | some n => (fromUnixTimestamp n).map some

def replace (c : Char) (new s : String) : String :=
  .ofList (s.toList.flatMap fun c' => if c' = c then new.toList else [c'])

def iso8601custom : With PrimitiveDateTime where
  serialize t :=
    match TimePrecision.second.format t with
    | .ok s => .ok (.string (replace 'Z' "" (replace 'T' " " s)))
    | .error e => .error (.custom e)
  deserialize input := (iso parse).deserialize input.value

end Modules

def With.RoundTrips {α : Type} (module : With α) (text : Text) (form : Form) (precision : α → α)
    (a : α) : Prop :=
  ∃ j input, module.serialize a = .ok j ∧ form.input text j = .ok input ∧
    module.deserialize input = .ok (precision a)

inductive Written where
  | iso8601 (t : PrimitiveDateTime)
  | iso8601Option (o : Option PrimitiveDateTime)
  | optionWithoutTimezone (o : Option PrimitiveDateTime)
  | timestamp (t : PrimitiveDateTime)
  | timestampOption (o : Option PrimitiveDateTime)
  | iso8601custom (t : PrimitiveDateTime)

def Written.date : Written → Option PrimitiveDateTime
  | .iso8601 t | .timestamp t | .iso8601custom t => some t
  | .iso8601Option o | .optionWithoutTimezone o | .timestampOption o => o

/-- What was written is read, to the precision of its module. -/
def Written.RoundTrips (text : Text) (parse : String → Option PrimitiveDateTime) (form : Form) :
    Written → Prop
  | .iso8601 t => (CustomSerde.iso8601 parse).RoundTrips text form PrimitiveDateTime.toMillis t
  | .iso8601Option o => (CustomSerde.iso8601.option parse).RoundTrips text form
      (Option.map PrimitiveDateTime.toMillis) o
  | .optionWithoutTimezone o => CustomSerde.iso8601.optionWithoutTimezone.RoundTrips text form
      (Option.map PrimitiveDateTime.toSeconds) o
  | .timestamp t => CustomSerde.timestamp.RoundTrips text form PrimitiveDateTime.toSeconds t
  | .timestampOption o => CustomSerde.timestamp.option.RoundTrips text form
      (Option.map PrimitiveDateTime.toSeconds) o
  | .iso8601custom t => (CustomSerde.iso8601custom parse).RoundTrips text form
      PrimitiveDateTime.toSeconds t

def Form.lends : Form → Bool
  | .str | .valueRef => true
  | .reader | .value => false

/-- A date without its zone has to be lent, and a custom one has lost its `T`. -/
def Written.Readable (form : Form) : Written → Prop
  | .optionWithoutTimezone o => o = none ∨ form.lends = true
  | .iso8601custom _ => False
  | _ => True

/- What the texts are. -/

def plainChar (c : Char) : Bool := c ≠ '"' && c ≠ '\\' && ' ' ≤ c

def Plain (s : String) : Prop := ∀ c ∈ s.toList, plainChar c = true

/-- serde_json on scalars: it reads what it writes, and a plain string stands in quotes. -/
structure Scalars (text : Text) : Prop where
  null : text.fromStr (text.toString .null) = .ok .null
  number : ∀ n : Int, -2 ^ 63 ≤ n → n < 2 ^ 63 →
    text.fromStr (text.toString (.number (.int n))) = .ok (.number (.int n))
  quoted : ∀ s, Plain s → text.toString (.string s) = "\"" ++ s ++ "\""
  string : ∀ s, Plain s → text.fromStr ("\"" ++ s ++ "\"") = .ok (.string s)

theorem plain_digit {c : Char} (digit : c.isDigit = true) : plainChar c = true := by
  simp only [Char.isDigit, Bool.and_eq_true, decide_eq_true_eq, UInt32.le_iff_toNat_le] at digit
  have inside : 48 ≤ c.toNat ∧ c.toNat ≤ 57 := digit
  have quote : c ≠ '"' := by
    rintro rfl
    exact absurd inside (by decide)
  have backslash : c ≠ '\\' := by
    rintro rfl
    exact absurd inside (by decide)
  have printed : ' ' ≤ c := by
    change (32 : Nat) ≤ c.toNat
    omega
  simp [plainChar, quote, backslash, printed]

theorem plain_of_all {s : String} (all : s.toList.all plainChar = true) : Plain s :=
  List.all_eq_true.mp all

def plainPiece : Component → Bool
  | .literal c => plainChar c
  | _ => true

theorem plain_format {description : List Component} (plain : description.all plainPiece = true)
    (d : DateTime) : Plain (Calendar.format description d) := by
  intro c mem
  rcases mem_format mem with digit | rfl | named
  · exact plain_digit digit
  · decide
  · exact List.all_eq_true.mp plain _ named

theorem plain_replace {c : Char} {new s : String} (plainNew : Plain new) (plain : Plain s) :
    Plain (replace c new s) := by
  intro x mem
  rw [replace, String.toList_ofList] at mem
  obtain ⟨y, named, mem⟩ := List.mem_flatMap.mp mem
  split at mem
  · exact plainNew x mem
  · rw [List.mem_singleton.mp mem]
    exact plain y named

theorem replace_subset {c x : Char} {new s : String} (mem : x ∈ (replace c new s).toList) :
    x ∈ new.toList ∨ x ≠ c ∧ x ∈ s.toList := by
  rw [replace, String.toList_ofList] at mem
  obtain ⟨y, named, mem⟩ := List.mem_flatMap.mp mem
  split at mem
  · exact .inl mem
  · rename_i other
    cases List.mem_singleton.mp mem
    exact .inr ⟨other, named⟩

/- What is in hand. -/

theorem input_ok {text : Text} {j : Value} (read : text.fromStr (text.toString j) = .ok j)
    (form : Form) : ∃ lends, form.input text j = .ok ⟨j, lends⟩ := by
  cases form with
  | str => exact ⟨_, by simp only [Form.input, read]; rfl⟩
  | reader => exact ⟨_, by simp only [Form.input, read]; rfl⟩
  | value => exact ⟨_, rfl⟩
  | valueRef => exact ⟨_, rfl⟩

theorem input_string {text : Text} (scalars : Scalars text) {s : String} (plain : Plain s)
    (form : Form) : form.input text (.string s) = .ok ⟨.string s, form.lends⟩ := by
  have read := scalars.string s plain
  have unescaped : ("\"" ++ s ++ "\"").toList.contains '\\' = false := by
    rw [List.contains_eq_mem, decide_eq_false_iff_not]
    intro mem
    rw [String.toList_append, String.toList_append, List.mem_append, List.mem_append] at mem
    rcases mem with (mem | mem) | mem
    · exact absurd mem (by decide)
    · exact absurd (plain _ mem) (by decide)
    · exact absurd mem (by decide)
  cases form with
  | str =>
    simp only [Form.input, scalars.quoted s plain, read, unescaped]
    rfl
  | reader =>
    simp only [Form.input, scalars.quoted s plain, read]
    rfl
  | value => rfl
  | valueRef => rfl

/- The years that are written with four digits. -/

theorem year_of_fourDigits {t : PrimitiveDateTime} (inside : t.FourDigits) :
    0 ≤ (DateTime.ofInstant t).date.year ∧ (DateTime.ofInstant t).date.year ≤ 9999 := by
  have low : daysBefore 0 = -366 := by decide
  have epoch : daysBefore 1970 = 719162 := by decide
  have high : daysBefore (9999 + 1) = 3652059 := by decide
  rw [fourDigits_iff] at inside
  apply Date.year_ofDays
  · rw [low, epoch, nanosPerDay]
    omega
  · rw [high, epoch, nanosPerDay]
    omega

theorem format_ok {t : PrimitiveDateTime} (inside : t.FourDigits) (precision : TimePrecision) :
    precision.format t = .ok (Calendar.format precision.iso8601 (DateTime.ofInstant t)) :=
  if_pos (year_of_fourDigits inside)

theorem iso_exact {parse : String → Option PrimitiveDateTime} (documented : Documented parse) :
    (iso parse).Exact where
  truncates := by
    intro t inside
    change TimePrecision.millisecond.format t.toMillis = TimePrecision.millisecond.format t
    rw [format_ok inside, format_ok (toMillis_fourDigits inside), toMillis_eq,
      DateTime.ofInstant_toMillisecond, format_toMillisecond]
  reads := by
    intro t inside
    obtain ⟨low, high⟩ := year_of_fourDigits inside
    have read := documented.reads (DateTime.ofInstant t) low high
    rw [DateTime.instant_toMillisecond, DateTime.instant_ofInstant] at read
    exact ⟨_, format_ok inside _, read⟩

theorem iso_plain {parse : String → Option PrimitiveDateTime} {t : PrimitiveDateTime} {s : String}
    (inside : t.FourDigits) (written : (iso parse).serialize t = .ok (.string s)) : Plain s := by
  have formatted := format_ok inside .millisecond
  simp only [Iso8601.serialize, iso, formatted] at written
  cases written
  exact plain_format (by decide) _

/- Each module. -/

section RoundTrips

variable {text : Text} {parse : String → Option PrimitiveDateTime}

theorem Scalars.readsString (scalars : Scalars text) {s : String} (plain : Plain s) :
    text.fromStr (text.toString (.string s)) = .ok (.string s) := by
  rw [scalars.quoted s plain]
  exact scalars.string s plain

theorem With.RoundTrips.of_read {α : Type} {module : With α} {precision : α → α} {a : α}
    {j : Value} (written : module.serialize a = .ok j)
    (again : text.fromStr (text.toString j) = .ok j)
    (read : ∀ lends, module.deserialize ⟨j, lends⟩ = .ok (precision a)) (form : Form) :
    module.RoundTrips text form precision a := by
  obtain ⟨lends, inHand⟩ := input_ok again form
  exact ⟨j, ⟨j, lends⟩, written, inHand, read lends⟩

theorem iso8601_round_trips (scalars : Scalars text) (documented : Documented parse)
    {t : PrimitiveDateTime} (inside : t.FourDigits) (form : Form) :
    (iso8601 parse).RoundTrips text form PrimitiveDateTime.toMillis t := by
  obtain ⟨s, written, read, -⟩ := (iso_exact documented).date inside
  have plain := iso_plain inside written
  exact .of_read written (scalars.readsString plain) (fun _ => read) form

theorem iso8601_option_round_trips (scalars : Scalars text) (documented : Documented parse)
    {o : Option PrimitiveDateTime} (inside : ∀ t ∈ o, t.FourDigits) (form : Form) :
    (iso8601.option parse).RoundTrips text form (Option.map PrimitiveDateTime.toMillis) o := by
  cases o with
  | none => exact .of_read (j := .null) rfl scalars.null (fun _ => rfl) form
  | some t =>
    obtain ⟨s, written, read, -⟩ := (iso_exact documented).date (inside t rfl)
    have plain := iso_plain (inside t rfl) written
    exact .of_read (j := .string s) written (scalars.readsString plain)
      (fun _ => congrArg (Except.map some) read) form

theorem asI64_unixTimestamp {t : PrimitiveDateTime} (inside : t.FourDigits) :
    asI64 (.number (.int t.unixTimestamp)) = .ok t.unixTimestamp :=
  if_pos (unixTimestamp_range (fourDigits_valid inside))

theorem fromUnixTimestamp_unixTimestamp {t : PrimitiveDateTime} (inside : t.FourDigits) :
    fromUnixTimestamp t.unixTimestamp = .ok t.toSeconds :=
  if_pos (toSeconds_valid (fourDigits_valid inside))

theorem timestamp_round_trips (scalars : Scalars text) {t : PrimitiveDateTime}
    (inside : t.FourDigits) (form : Form) :
    timestamp.RoundTrips text form PrimitiveDateTime.toSeconds t := by
  obtain ⟨low, high⟩ := unixTimestamp_range (fourDigits_valid inside)
  have again := scalars.number t.unixTimestamp low high
  refine .of_read rfl again (fun _ => ?_) form
  simp only [timestamp, asI64_unixTimestamp inside]
  exact fromUnixTimestamp_unixTimestamp inside

theorem timestamp_option_round_trips (scalars : Scalars text) {o : Option PrimitiveDateTime}
    (inside : ∀ t ∈ o, t.FourDigits) (form : Form) :
    timestamp.option.RoundTrips text form (Option.map PrimitiveDateTime.toSeconds) o := by
  cases o with
  | none => exact .of_read (j := .null) rfl scalars.null (fun _ => rfl) form
  | some t =>
    obtain ⟨low, high⟩ := unixTimestamp_range (fourDigits_valid (inside t rfl))
    have again := scalars.number t.unixTimestamp low high
    refine .of_read rfl again (fun _ => ?_) form
    have read := asI64_unixTimestamp (inside t rfl)
    have date := fromUnixTimestamp_unixTimestamp (inside t rfl)
    simp only [timestamp.option, asOption, read]
    exact congrArg (Except.map some) date

theorem parse_withoutTimezone {d : DateTime} (fits : d.date.year.natAbs < 10 ^ 4) :
    Calendar.parse withoutTimezone (Calendar.format withoutTimezone d) = some d.toSecond := by
  rw [parse_format fits]
  exact d.check_self ⟨0, by decide⟩

/-- A date without its zone is read where its text is lent, and refused where it is not. -/
theorem without_timezone_round_trips_iff (scalars : Scalars text) {o : Option PrimitiveDateTime}
    (inside : ∀ t ∈ o, t.FourDigits) (form : Form) :
    iso8601.optionWithoutTimezone.RoundTrips text form (Option.map PrimitiveDateTime.toSeconds) o ↔
      o = none ∨ form.lends = true := by
  cases o with
  | none =>
    exact ⟨fun _ => .inl rfl, fun _ => .of_read (j := .null) rfl scalars.null (fun _ => rfl) form⟩
  | some t =>
    have plain : Plain (Calendar.format withoutTimezone (DateTime.ofInstant t)) :=
      plain_format (by decide) _
    have inHand := input_string scalars plain form
    obtain ⟨low, high⟩ := year_of_fourDigits (inside t rfl)
    have parsed := parse_withoutTimezone (d := DateTime.ofInstant t) (by omega)
    have instant : (DateTime.ofInstant t).toSecond.instant = PrimitiveDateTime.toSeconds t := by
      rw [DateTime.instant_toSecond, DateTime.instant_ofInstant, toSeconds_eq]
    constructor
    · rintro ⟨j, input, written, found, read⟩
      cases written
      cases inHand.symm.trans found
      cases lent : form.lends with
      | true => exact .inr rfl
      | false =>
        rw [lent] at read
        cases read
    · intro lent
      have lent : form.lends = true := by simpa using lent
      refine ⟨_, _, rfl, inHand, ?_⟩
      rw [lent]
      simp only [iso8601.optionWithoutTimezone, asOption, asStr, if_true, asString, Except.map,
        bind, Except.bind, parsed, instant]
      rfl

/-- A custom date has lost the `T` that its own parser asks for. -/
theorem custom_never_round_trips (scalars : Scalars text) (documented : Documented parse)
    {t : PrimitiveDateTime} (inside : t.FourDigits) (form : Form) :
    ¬ (iso8601custom parse).RoundTrips text form PrimitiveDateTime.toSeconds t := by
  have plain : Plain (replace 'Z' "" (replace 'T' " "
      (Calendar.format TimePrecision.second.iso8601 (DateTime.ofInstant t)))) :=
    plain_replace (plain_of_all (by decide))
      (plain_replace (plain_of_all (by decide)) (plain_format (by decide) _))
  rintro ⟨j, input, written, found, read⟩
  simp only [iso8601custom, format_ok inside] at written
  cases written
  cases (input_string scalars plain form).symm.trans found
  simp only [iso8601custom, Iso8601.deserialize, iso] at read
  split at read
  · rename_i u parsed
    have separator := documented.separator _ _ parsed
    rcases replace_subset separator with mem | ⟨-, mem⟩
    · cases mem
    · rcases replace_subset mem with mem | ⟨other, -⟩
      · exact absurd mem (by decide)
      · exact other rfl
  · cases read

/-- What a module wrote of a date with four digits of year is read again, except for a date
without its zone in a string that is not lent, and for a custom date. -/
theorem round_trips_iff (scalars : Scalars text) (documented : Documented parse)
    (written : Written) (inside : ∀ t ∈ written.date, t.FourDigits) (form : Form) :
    written.RoundTrips text parse form ↔ written.Readable form := by
  cases written with
  | iso8601 t =>
    exact iff_of_true (iso8601_round_trips scalars documented (inside t rfl) form) trivial
  | iso8601Option o =>
    exact iff_of_true (iso8601_option_round_trips scalars documented inside form) trivial
  | optionWithoutTimezone o => exact without_timezone_round_trips_iff scalars inside form
  | timestamp t => exact iff_of_true (timestamp_round_trips scalars (inside t rfl) form) trivial
  | timestampOption o =>
    exact iff_of_true (timestamp_option_round_trips scalars inside form) trivial
  | iso8601custom t =>
    exact iff_of_false (custom_never_round_trips scalars documented (inside t rfl) form) id

end RoundTrips

/- A reader of what is written, and of nothing else. -/

def readsMillis (s : String) : Option PrimitiveDateTime :=
  (Calendar.parse TimePrecision.millisecond.iso8601 s).map DateTime.instant

theorem parse_millisecond {d : DateTime} (fits : d.date.year.natAbs < 10 ^ 4) :
    Calendar.parse TimePrecision.millisecond.iso8601
      (Calendar.format TimePrecision.millisecond.iso8601 d) = some d.toMillisecond := by
  rw [parse_format fits]
  exact d.check_self d.toMillisecond.time.nanosecond

theorem readsMillis_documented : Documented readsMillis where
  reads := by
    intro d low high
    rw [readsMillis, parse_millisecond (by omega), Option.map_some]
  separator := by
    intro s t read
    obtain ⟨d, parsed, -⟩ := Option.map_eq_some_iff.mp read
    exact mem_of_parse parsed (by decide)

def scalarText : Text where
  toString
    | .null => "null"
    | .number (.int n) => ToString.toString n
    | .string s => "\"" ++ s ++ "\""
    | _ => ""
  fromStr s :=
    match parseI64 s with
    | some n => .ok (.number (.int n))
    | none =>
      match s.toList with
      | '"' :: cs => .ok (.string (.ofList cs.dropLast))
      | _ => .ok .null

theorem scalarText_scalars : Scalars scalarText where
  null := by rfl
  number := by
    intro n low high
    simp only [scalarText, parseI64_toString low high]
  quoted _ _ := rfl
  string := by
    intro s _
    have chars : ("\"" ++ s ++ "\"").toList = '"' :: (s.toList ++ ['"']) := by
      simp
    have noNumber : parseI64 ("\"" ++ s ++ "\"") = none := by
      simp [parseI64, parseDigits, chars]
    simp only [scalarText, noNumber, chars, List.dropLast_concat, String.ofList_toList]

theorem round_trips_after_epoch :
    (CustomSerde.iso8601 readsMillis).RoundTrips scalarText .value PrimitiveDateTime.toMillis
      1400000 ∧ PrimitiveDateTime.toMillis 1400000 = 1000000 := by
  have inside : ∀ t ∈ (Written.iso8601 1400000).date, PrimitiveDateTime.FourDigits t := by
    rintro t ⟨⟩
    exact fourDigits_iff.mpr (by decide)
  have iff := round_trips_iff scalarText_scalars readsMillis_documented (.iso8601 1400000) inside
    .value
  exact ⟨iff.mpr trivial, by decide⟩

/-- The first date of 1970 is not read from a `Value` without its zone, and nowhere as custom. -/
theorem epoch_is_not_read :
    ¬ (Written.optionWithoutTimezone (some 0)).RoundTrips scalarText readsMillis .value ∧
      ∀ form, ¬ (Written.iso8601custom 0).RoundTrips scalarText readsMillis form := by
  have inside : PrimitiveDateTime.FourDigits 0 := fourDigits_iff.mpr (by decide)
  constructor
  · intro read
    have lent := (without_timezone_round_trips_iff scalarText_scalars (o := some 0)
      (by rintro t ⟨⟩; exact inside) .value).mp read
    exact absurd lent (by decide)
  · exact fun form => custom_never_round_trips scalarText_scalars readsMillis_documented inside form

end Mercado.CustomSerde
