import Mercado.Dates.Calendar

/-! Dates as text. A description says, piece by piece, what is written and what is read. -/
namespace Calendar

/- Numbers of a fixed width. -/

def digits : Nat → Nat → List Char
  | 0, _ => []
  | width + 1, n => digits width (n / 10) ++ [Nat.digitChar (n % 10)]

def readNumber (width : Nat) (cs : List Char) : Option (Nat × List Char) :=
  if width ≤ cs.length ∧ (cs.take width).all Char.isDigit then
    some (Nat.ofDigitChars 10 (cs.take width) 0, cs.drop width)
  else none

theorem digits_length (width n : Nat) : (digits width n).length = width := by
  induction width generalizing n with
  | zero => rfl
  | succ width ih => simp [digits, ih]

theorem isDigit_of_mem_digits {width n : Nat} {c : Char} (mem : c ∈ digits width n) :
    c.isDigit = true := by
  induction width generalizing n with
  | zero => cases mem
  | succ width ih =>
    rcases List.mem_append.mp mem with mem | mem
    · exact ih mem
    · rw [List.mem_singleton.mp mem, Nat.isDigit_digitChar]
      exact decide_eq_true (Nat.mod_lt n (by decide))

theorem ofDigitChars_digits {width n : Nat} (fits : n < 10 ^ width) :
    Nat.ofDigitChars 10 (digits width n) 0 = n := by
  induction width generalizing n with
  | zero =>
    have zero : n = 0 := by simpa using fits
    rw [zero]
    rfl
  | succ width ih =>
    rw [Nat.pow_succ] at fits
    have last : (Nat.digitChar (n % 10)).toNat = 48 + n % 10 :=
      Nat.toNat_digitChar_of_lt_ten (Nat.mod_lt n (by decide))
    have earlier := ih (n := n / 10) (by omega)
    rw [Nat.ofDigitChars_eq_foldl] at earlier ⊢
    rw [digits, List.foldl_append, earlier, List.foldl_cons, List.foldl_nil, last]
    change 10 * (n / 10) + (48 + n % 10 - 48) = n
    omega

theorem readNumber_digits {width n : Nat} (fits : n < 10 ^ width) (rest : List Char) :
    readNumber width (digits width n ++ rest) = some (n, rest) := by
  have taken : (digits width n ++ rest).take width = digits width n :=
    List.take_left' (digits_length width n)
  have dropped : (digits width n ++ rest).drop width = rest :=
    List.drop_left' (digits_length width n)
  have digit : (digits width n).all Char.isDigit = true :=
    List.all_eq_true.mpr fun c mem => isDigit_of_mem_digits mem
  have wide : width ≤ (digits width n ++ rest).length := by
    rw [List.length_append, digits_length]
    omega
  rw [readNumber, taken, dropped, if_pos ⟨wide, digit⟩, ofDigitChars_digits fits]

/- Pieces. -/

inductive Component where
  | literal (c : Char)
  | year | month | day | hour | minute | second | millisecond
  deriving DecidableEq, Repr

structure Parsed where
  year : Option Int
  month : Option Nat
  day : Option Nat
  hour : Option Nat
  minute : Option Nat
  second : Option Nat
  millisecond : Option Nat

def Parsed.empty : Parsed := ⟨none, none, none, none, none, none, none⟩

def DateTime.millisecond (d : DateTime) : Nat := d.time.nanosecond / 1000000

/-- A year has four digits, and a sign if it is negative. -/
def Component.format (d : DateTime) : Component → List Char
  | .literal c => [c]
  | .year => (if d.date.year < 0 then ['-'] else []) ++ digits 4 d.date.year.natAbs
  | .month => digits 2 (d.date.month + 1)
  | .day => digits 2 (d.date.day + 1)
  | .hour => digits 2 d.time.hour
  | .minute => digits 2 d.time.minute
  | .second => digits 2 d.time.second
  | .millisecond => digits 3 d.millisecond

def readYear : List Char → Option (Int × List Char)
  | '-' :: cs => (readNumber 4 cs).map fun r => (-(r.1 : Int), r.2)
  | '+' :: cs => (readNumber 4 cs).map fun r => ((r.1 : Int), r.2)
  | cs => (readNumber 4 cs).map fun r => ((r.1 : Int), r.2)

def Component.read (p : Parsed) (cs : List Char) : Component → Option (Parsed × List Char)
  | .literal c => if cs.head? = some c then some (p, cs.tail) else none
  | .year => (readYear cs).map fun r => ({ p with year := some r.1 }, r.2)
  | .month => (readNumber 2 cs).map fun r => ({ p with month := some r.1 }, r.2)
  | .day => (readNumber 2 cs).map fun r => ({ p with day := some r.1 }, r.2)
  | .hour => (readNumber 2 cs).map fun r => ({ p with hour := some r.1 }, r.2)
  | .minute => (readNumber 2 cs).map fun r => ({ p with minute := some r.1 }, r.2)
  | .second => (readNumber 2 cs).map fun r => ({ p with second := some r.1 }, r.2)
  | .millisecond => (readNumber 3 cs).map fun r => ({ p with millisecond := some r.1 }, r.2)

def Component.known (d : DateTime) (p : Parsed) : Component → Parsed
  | .literal _ => p
  | .year => { p with year := some d.date.year }
  | .month => { p with month := some (d.date.month + 1) }
  | .day => { p with day := some (d.date.day + 1) }
  | .hour => { p with hour := some d.time.hour.val }
  | .minute => { p with minute := some d.time.minute.val }
  | .second => { p with second := some d.time.second.val }
  | .millisecond => { p with millisecond := some d.millisecond }

theorem readYear_format {y : Int} (fits : y.natAbs < 10 ^ 4) (rest : List Char) :
    readYear ((if y < 0 then ['-'] else []) ++ digits 4 y.natAbs ++ rest) = some (y, rest) := by
  by_cases negative : y < 0
  · have magnitude : -(y.natAbs : Int) = y := by omega
    rw [if_pos negative]
    change (readNumber 4 (digits 4 y.natAbs ++ rest)).map _ = _
    rw [readNumber_digits fits, Option.map_some, magnitude]
  · have magnitude : (y.natAbs : Int) = y := by omega
    have unsigned : readYear (digits 4 y.natAbs ++ rest) =
        (readNumber 4 (digits 4 y.natAbs ++ rest)).map fun r => ((r.1 : Int), r.2) := by
      cases written : digits 4 y.natAbs with
      | nil => cases (congrArg List.length written).symm.trans (digits_length 4 y.natAbs)
      | cons c more =>
        have mem : c ∈ digits 4 y.natAbs := written ▸ List.mem_cons_self
        have digit := isDigit_of_mem_digits mem
        unfold readYear
        split
        · rename_i same
          cases same
          contradiction
        · rename_i same
          cases same
          contradiction
        · rfl
    rw [if_neg negative, List.nil_append, unsigned, readNumber_digits fits, Option.map_some,
      magnitude]

theorem Date.day_lt (d : Date) : d.day < 31 := by
  have all : ∀ leap : Bool, ∀ month : Fin 12,
      ([31, if leap then 29 else 28, 31, 30, 31, 30, 31, 31, 30, 31, 30, 31] : List Nat).getD
        month 0 ≤ 31 := by decide
  exact Nat.lt_of_lt_of_le d.inMonth (all (isLeapYear d.year) d.month)

theorem Component.read_format {d : DateTime} (fits : d.date.year.natAbs < 10 ^ 4) (p : Parsed)
    (c : Component) (rest : List Char) :
    c.read p (c.format d ++ rest) = some (c.known d p, rest) := by
  cases c with
  | literal c => simp [read, format, known]
  | year => simp only [read, format, known, readYear_format fits, Option.map_some]
  | month =>
    have inside : d.date.month.val + 1 < 10 ^ 2 := by omega
    simp only [read, format, known, readNumber_digits inside, Option.map_some]
  | day =>
    have short := d.date.day_lt
    have inside : d.date.day + 1 < 10 ^ 2 := by omega
    simp only [read, format, known, readNumber_digits inside, Option.map_some]
  | hour =>
    have inside : d.time.hour.val < 10 ^ 2 := by omega
    simp only [read, format, known, readNumber_digits inside, Option.map_some]
  | minute =>
    have inside : d.time.minute.val < 10 ^ 2 := by omega
    simp only [read, format, known, readNumber_digits inside, Option.map_some]
  | second =>
    have inside : d.time.second.val < 10 ^ 2 := by omega
    simp only [read, format, known, readNumber_digits inside, Option.map_some]
  | millisecond =>
    have inside : d.millisecond < 10 ^ 3 := by
      unfold DateTime.millisecond
      omega
    simp only [read, format, known, readNumber_digits inside, Option.map_some]

/- Descriptions. -/

def format (description : List Component) (d : DateTime) : String :=
  .ofList (description.flatMap (Component.format d))

def readAll : List Component → Parsed → List Char → Option (Parsed × List Char)
  | [], p, cs => some (p, cs)
  | c :: description, p, cs => (c.read p cs).bind fun r => readAll description r.1 r.2

theorem readAll_format {d : DateTime} (fits : d.date.year.natAbs < 10 ^ 4)
    (description : List Component) (p : Parsed) (rest : List Char) :
    readAll description p (description.flatMap (Component.format d) ++ rest) =
      some (description.foldl (Component.known d) p, rest) := by
  induction description generalizing p with
  | nil => rfl
  | cons c description ih =>
    rw [List.flatMap_cons, List.append_assoc, readAll, Component.read_format fits]
    exact ih (c.known d p)

def Date.check (year : Int) (month day : Nat) : Option Date :=
  if named : 1 ≤ month ∧ month ≤ 12 then
    if inMonth : 1 ≤ day ∧ day - 1 < monthLength year ⟨month - 1, by omega⟩ then
      some ⟨year, ⟨month - 1, by omega⟩, day - 1, inMonth.2⟩
    else none
  else none

def Time.check (hour minute second nanosecond : Nat) : Option Time :=
  if inside : hour < 24 ∧ minute < 60 ∧ second < 60 ∧ nanosecond < 1000000000 then
    some ⟨⟨hour, inside.1⟩, ⟨minute, inside.2.1⟩, ⟨second, inside.2.2.1⟩,
      ⟨nanosecond, inside.2.2.2⟩⟩
  else none

def Parsed.time (p : Parsed) : Option Time :=
  match p.hour, p.minute, p.second, p.millisecond with
  | some hour, none, none, none => Time.check hour 0 0 0
  | some hour, some minute, none, none => Time.check hour minute 0 0
  | some hour, some minute, some second, none => Time.check hour minute second 0
  | some hour, some minute, some second, some ms => Time.check hour minute second (ms * 1000000)
  | _, _, _, _ => none

def Parsed.dateTime (p : Parsed) : Option DateTime := do
  let date ← Date.check (← p.year) (← p.month) (← p.day)
  let time ← p.time
  return { date, time }

def parse (description : List Component) (text : String) : Option DateTime :=
  match readAll description .empty text.toList with
  | some (p, []) => p.dateTime
  | _ => none

theorem parse_format {d : DateTime} (fits : d.date.year.natAbs < 10 ^ 4)
    (description : List Component) :
    parse description (format description d) =
      (description.foldl (Component.known d) .empty).dateTime := by
  have read := readAll_format fits description .empty []
  rw [List.append_nil] at read
  rw [parse, format, String.toList_ofList, read]

theorem Date.check_self (d : Date) : Date.check d.year (d.month + 1) (d.day + 1) = some d := by
  have named : 1 ≤ d.month.val + 1 ∧ d.month.val + 1 ≤ 12 := by omega
  have inMonth : 1 ≤ d.day + 1 ∧
      d.day + 1 - 1 < monthLength d.year ⟨d.month.val + 1 - 1, by omega⟩ :=
    ⟨Nat.succ_pos _, d.inMonth⟩
  rw [Date.check, dif_pos named, dif_pos inMonth]
  rfl

def DateTime.toSecond (d : DateTime) : DateTime :=
  { d with time := { d.time with nanosecond := ⟨0, by decide⟩ } }

def DateTime.toMillisecond (d : DateTime) : DateTime :=
  { d with time := { d.time with nanosecond := ⟨d.millisecond * 1000000, by
      unfold DateTime.millisecond
      omega⟩ } }

theorem Time.check_self (t : Time) (n : Fin 1000000000) :
    Time.check t.hour t.minute t.second n = some { t with nanosecond := n } :=
  dif_pos ⟨t.hour.2, t.minute.2, t.second.2, n.2⟩

theorem DateTime.check_self (d : DateTime) (n : Fin 1000000000) :
    ((Date.check d.date.year (d.date.month + 1) (d.date.day + 1)).bind fun date =>
      (Time.check d.time.hour d.time.minute d.time.second n).bind fun time =>
        some (DateTime.mk date time)) =
      some { d with time := { d.time with nanosecond := n } } := by
  rw [Date.check_self, Option.bind_some, Time.check_self, Option.bind_some]

theorem DateTime.instant_toSecond (d : DateTime) :
    d.toSecond.instant = d.instant / 1000000000 * 1000000000 := by
  simp only [instant, toSecond, nanosPerDay, Time.nanoseconds]
  omega

theorem DateTime.instant_toMillisecond (d : DateTime) :
    d.toMillisecond.instant = d.instant / 1000000 * 1000000 := by
  simp only [instant, toMillisecond, millisecond, nanosPerDay, Time.nanoseconds]
  omega

theorem DateTime.ofInstant_toMillisecond (t : Int) :
    ofInstant (t / 1000000 * 1000000) = (ofInstant t).toMillisecond := by
  have days : t / 1000000 * 1000000 / 86400000000000 = t / 86400000000000 := by omega
  have rest : (t / 1000000 * 1000000 % 86400000000000).toNat =
      (t % 86400000000000).toNat / 1000000 * 1000000 := by omega
  simp only [ofInstant, toMillisecond, millisecond, nanosPerDay, days, rest, Time.ofNanoseconds]
  congr 2
  all_goals
    apply Fin.ext
    simp only [Fin.val_ofNat]
    omega

theorem format_toMillisecond (description : List Component) (d : DateTime) :
    format description d.toMillisecond = format description d := by
  have same : d.toMillisecond.millisecond = d.millisecond := Nat.mul_div_cancel _ (by decide)
  have pieces : Component.format d.toMillisecond = Component.format d := by
    funext c
    cases c with
    | millisecond => simp only [Component.format, same]
    | _ => rfl
  rw [format, pieces, format]

theorem mem_format {description : List Component} {d : DateTime} {c : Char}
    (mem : c ∈ (format description d).toList) :
    c.isDigit = true ∨ c = '-' ∨ .literal c ∈ description := by
  rw [format, String.toList_ofList] at mem
  obtain ⟨piece, named, mem⟩ := List.mem_flatMap.mp mem
  cases piece with
  | literal c' =>
    cases List.mem_singleton.mp mem
    exact .inr (.inr named)
  | year =>
    rcases List.mem_append.mp mem with mem | mem
    · split at mem
      · exact .inr (.inl (List.mem_singleton.mp mem))
      · cases mem
    · exact .inl (isDigit_of_mem_digits mem)
  | _ => exact .inl (isDigit_of_mem_digits mem)

/- What a text that is read must have. -/

theorem readNumber_suffix {width n : Nat} {cs rest : List Char}
    (read : readNumber width cs = some (n, rest)) : rest <:+ cs := by
  unfold readNumber at read
  split at read
  · cases read
    exact List.drop_suffix width cs
  · cases read

theorem readYear_suffix {y : Int} {cs rest : List Char} (read : readYear cs = some (y, rest)) :
    rest <:+ cs := by
  unfold readYear at read
  split at read
  all_goals
    obtain ⟨r, digits, same⟩ := Option.map_eq_some_iff.mp read
    cases same
  · exact (readNumber_suffix digits).trans (List.suffix_cons _ _)
  · exact (readNumber_suffix digits).trans (List.suffix_cons _ _)
  · exact readNumber_suffix digits

theorem Component.read_suffix {c : Component} {p q : Parsed} {cs rest : List Char}
    (read : c.read p cs = some (q, rest)) : rest <:+ cs := by
  cases c with
  | literal c =>
    simp only [Component.read] at read
    split at read
    · cases read
      exact List.tail_suffix cs
    · cases read
  | year =>
    obtain ⟨r, number, same⟩ := Option.map_eq_some_iff.mp read
    cases same
    exact readYear_suffix number
  | _ =>
    obtain ⟨r, number, same⟩ := Option.map_eq_some_iff.mp read
    cases same
    exact readNumber_suffix number

theorem mem_of_readAll {description : List Component} {p q : Parsed} {cs rest : List Char}
    {c : Char} (read : readAll description p cs = some (q, rest))
    (named : .literal c ∈ description) : c ∈ cs := by
  induction description generalizing p cs with
  | nil => cases named
  | cons piece description ih =>
    obtain ⟨r, first, later⟩ := Option.bind_eq_some_iff.mp read
    rcases List.mem_cons.mp named with rfl | named
    · simp only [Component.read] at first
      split at first
      · rename_i head
        exact List.mem_of_mem_head? head
      · cases first
    · exact (Component.read_suffix first).subset (ih later named)

theorem mem_of_parse {description : List Component} {text : String} {d : DateTime} {c : Char}
    (read : parse description text = some d) (named : .literal c ∈ description) :
    c ∈ text.toList := by
  unfold parse at read
  split at read
  · rename_i whole
    exact mem_of_readAll whole named
  · cases read

end Calendar
