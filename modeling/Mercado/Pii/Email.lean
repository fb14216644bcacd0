import Mercado.Pii.Strategies
import Mercado.Text.Regex

/-! E-mail addresses: what is accepted as one, and what is shown of it. -/
namespace Mercado.Pii
open Checked Text Text.Regex RegularExpression

inductive ValidationError where
  | invalidValue (message : String)
  deriving DecidableEq, Repr

/- The pattern, class by class. -/

def alnum : List Char := range 'a' 'z' ++ range '0' '9'

def alnumHyphen : List Char := alnum ++ ['-']

def punctuation : List Char := ".!#$%&'*+/=?^_`\x7b|\x7d~-".toList

def localChars : List Char := alnum ++ punctuation

/-- `[a-z0-9](?:[a-z0-9-]{0,61}[a-z0-9])?`. -/
def label : RegularExpression Char :=
  oneOf alnum * optional (upTo 61 (oneOf alnumHyphen) * oneOf alnum)

def emailRegex : RegularExpression Char :=
  repeated (oneOf localChars) * (char '@' * (label * repeated (char '.' * label)))

/- Simple case folding. Two characters beyond ASCII fold to letters of ASCII; all others stay
beyond it, where the pattern does not tell them apart. -/

def longS : Char := '\u017f'
def kelvin : Char := '\u212a'

def plain (c : Char) : Char := if c = longS then 's' else if c = kelvin then 'k' else c

def simpleFold (c : Char) : Char := (plain c).toLower

/-- With `(?i)`, from the beginning of the text to its end. -/
def isMatch (email : String) : Bool := emailRegex.rmatch (email.toList.map simpleFold)

def emailMaxLength : Nat := 319

def validateEmail (email : String) : Except ValidationError Unit :=
  if email.isEmpty ∨ emailMaxLength < email.toList.length then
    .error (.invalidValue "Email address is either empty or exceeds maximum allowed length")
  else if ¬ isMatch email then .error (.invalidValue "Invalid email address format")
  else .ok ()

def redacted : String := "Redacted"

structure Email where
  secret : String
  deriving DecidableEq, Repr

def Email.fromStr (email : String) : Except ValidationError Email :=
  if email = redacted then .ok ⟨email⟩
  else
    match validateEmail email with
    | .ok _ => .ok ⟨email⟩
    | .error _ => .error (.invalidValue "Invalid email address format")

/- The addresses that are meant, up to the case of ASCII letters. -/

def LetterOrDigit (c : Char) : Prop := ('a' ≤ c ∧ c ≤ 'z') ∨ ('0' ≤ c ∧ c ≤ '9')

instance : DecidablePred LetterOrDigit := fun _ => inferInstanceAs (Decidable (_ ∨ _))

def IsLocal (l : List Char) : Prop :=
  l ≠ [] ∧ ∀ c ∈ l, LetterOrDigit c ∨ c ∈ punctuation

structure IsLabel (l : List Char) : Prop where
  long : 1 ≤ l.length
  short : l.length ≤ 63
  chars : ∀ c ∈ l, LetterOrDigit c ∨ c = '-'
  first : l.head? ≠ some '-'
  last : l.getLast? ≠ some '-'

/-- `local '@' label ('.' label)+`. -/
def IsAddress (s : List Char) : Prop :=
  ∃ localPart label labels, s = localPart ++ '@' :: (label ++ labels.flatMap ('.' :: ·)) ∧
    IsLocal localPart ∧ IsLabel label ∧ labels ≠ [] ∧ ∀ l ∈ labels, IsLabel l

def Specified (email : String) : Prop :=
  email.toList.length ≤ emailMaxLength ∧ IsAddress (email.toList.map Char.toLower)

/- Classes. -/

theorem mem_alnum {c : Char} : c ∈ alnum ↔ LetterOrDigit c := by
  rw [alnum, List.mem_append, mem_range (by decide), mem_range (by decide)]
  exact Iff.rfl

theorem mem_alnumHyphen {c : Char} : c ∈ alnumHyphen ↔ LetterOrDigit c ∨ c = '-' := by
  rw [alnumHyphen, List.mem_append, mem_alnum, List.mem_singleton]

theorem mem_localChars {c : Char} : c ∈ localChars ↔ LetterOrDigit c ∨ c ∈ punctuation := by
  rw [localChars, List.mem_append, mem_alnum]

theorem letterOrDigit_ne_hyphen {c : Char} (h : LetterOrDigit c) : c ≠ '-' := by
  rintro rfl
  revert h
  unfold LetterOrDigit
  decide

theorem label_isLabel {x : List Char} (h : x ∈ label.matches') : IsLabel x := by
  rw [label, matches'_mul, Language.mem_mul] at h
  obtain ⟨_, head, rest, tail, rfl⟩ := h
  obtain ⟨a, letter, rfl⟩ := mem_oneOf.mp head
  have inside : LetterOrDigit a := mem_alnum.mp letter
  have first : [a].head? ≠ some '-' := fun same =>
    letterOrDigit_ne_hyphen inside (Option.some.inj same)
  rcases mem_optional.mp tail with rfl | more
  · refine ⟨Nat.le_refl 1, Nat.le_add_left 1 62, ?_, first, first⟩
    intro c mem
    rw [List.append_nil, List.mem_singleton] at mem
    exact .inl (mem ▸ inside)
  · rw [matches'_mul, Language.mem_mul] at more
    obtain ⟨mid, middle, _, final, rfl⟩ := more
    obtain ⟨b, letter, rfl⟩ := mem_oneOf.mp final
    obtain ⟨short, all⟩ := mem_upTo_oneOf.mp middle
    have ending : LetterOrDigit b := mem_alnum.mp letter
    refine ⟨?_, ?_, ?_, first, ?_⟩
    · simp
    · simp only [List.length_append, List.length_singleton]
      omega
    · intro c mem
      simp only [List.mem_append, List.mem_singleton] at mem
      rcases mem with rfl | mem | rfl
      · exact .inl inside
      · exact mem_alnumHyphen.mp (all c mem)
      · exact .inl ending
    · have last : ([a] ++ (mid ++ [b])).getLast? = some b := by
        rw [← List.append_assoc, List.getLast?_concat]
      rw [last]
      exact fun same => letterOrDigit_ne_hyphen ending (Option.some.inj same)

theorem IsLabel.matched {x : List Char} (h : IsLabel x) : x ∈ label.matches' := by
  obtain ⟨long, short, chars, first, last⟩ := h
  have letter : ∀ c ∈ x, c ≠ '-' → c ∈ alnum := fun c mem other =>
    mem_alnum.mpr ((chars c mem).resolve_right other)
  rw [label, matches'_mul, Language.mem_mul]
  cases x with
  | nil => cases long
  | cons a rest =>
    have head : [a] ∈ (oneOf alnum).matches' :=
      mem_oneOf.mpr ⟨a, letter a List.mem_cons_self fun same => first (congrArg _ same), rfl⟩
    refine ⟨[a], head, rest, mem_optional.mpr ?_, rfl⟩
    rcases List.eq_nil_or_concat' rest with rfl | ⟨mid, b, rfl⟩
    · exact .inl rfl
    · right
      rw [matches'_mul, Language.mem_mul]
      have ending : b ≠ '-' := by
        intro same
        rw [same, ← List.cons_append, List.getLast?_concat] at last
        exact last rfl
      have inside : b ∈ a :: (mid ++ [b]) := by simp
      have final : [b] ∈ (oneOf alnum).matches' :=
        mem_oneOf.mpr ⟨b, letter b inside ending, rfl⟩
      refine ⟨mid, mem_upTo_oneOf.mpr ⟨?_, ?_⟩, [b], final, rfl⟩
      · simp only [List.length_cons, List.length_append] at short
        omega
      · intro c mem
        exact mem_alnumHyphen.mpr (chars c (by simp [mem]))

theorem label_iff {x : List Char} : x ∈ label.matches' ↔ IsLabel x :=
  ⟨label_isLabel, IsLabel.matched⟩

theorem dotted_iff {x : List Char} :
    x ∈ (char '.' * label).matches' ↔ ∃ l, x = '.' :: l ∧ IsLabel l := by
  rw [matches'_mul, Language.mem_mul]
  constructor
  · rintro ⟨_, rfl, l, inside, rfl⟩
    exact ⟨l, rfl, label_iff.mp inside⟩
  · rintro ⟨l, rfl, inside⟩
    exact ⟨['.'], rfl, l, label_iff.mpr inside, rfl⟩

theorem domain_iff {x : List Char} : x ∈ (repeated (char '.' * label)).matches' ↔
    ∃ labels, x = labels.flatMap ('.' :: ·) ∧ labels ≠ [] ∧ ∀ l ∈ labels, IsLabel l := by
  rw [mem_repeated]
  constructor
  · rintro ⟨words, some, rfl, all⟩
    refine ⟨words.map List.tail, ?_, ?_, ?_⟩
    · have same : words.map (fun word => '.' :: word.tail) = words := by
        refine (List.map_congr_left ?_).trans (List.map_id' words)
        intro word mem
        obtain ⟨l, rfl, -⟩ := dotted_iff.mp (all word mem)
        rfl
      rw [List.flatMap_map, List.flatMap_def, same]
    · exact fun none => some (List.map_eq_nil_iff.mp none)
    · intro l mem
      obtain ⟨word, inside, rfl⟩ := List.mem_map.mp mem
      obtain ⟨l, rfl, valid⟩ := dotted_iff.mp (all word inside)
      exact valid
  · rintro ⟨labels, rfl, some, all⟩
    refine ⟨labels.map ('.' :: ·), ?_, rfl, ?_⟩
    · exact fun none => some (List.map_eq_nil_iff.mp none)
    · intro word mem
      obtain ⟨l, inside, rfl⟩ := List.mem_map.mp mem
      exact dotted_iff.mpr ⟨l, rfl, all l inside⟩

theorem local_iff {x : List Char} : x ∈ (repeated (oneOf localChars)).matches' ↔ IsLocal x := by
  rw [mem_repeated_oneOf, IsLocal]
  simp only [mem_localChars]

/-- The pattern is the grammar. -/
theorem emailRegex_iff {x : List Char} : x ∈ emailRegex.matches' ↔ IsAddress x := by
  rw [emailRegex, matches'_mul, Language.mem_mul]
  constructor
  · rintro ⟨front, user, _, ⟨_, rfl, _, ⟨l, first, rest, later, rfl⟩, rfl⟩, rfl⟩
    obtain ⟨labels, rfl, some, all⟩ := domain_iff.mp later
    exact ⟨front, l, labels, rfl, local_iff.mp user, label_iff.mp first, some, all⟩
  · rintro ⟨front, l, labels, rfl, user, first, some, all⟩
    have host : l ++ labels.flatMap ('.' :: ·) ∈
        (label * repeated (char '.' * label)).matches' :=
      ⟨l, label_iff.mpr first, _, domain_iff.mpr ⟨labels, rfl, some, all⟩, rfl⟩
    exact ⟨front, local_iff.mpr user, _, ⟨['@'], rfl, _, host, rfl⟩, rfl⟩

theorem isMatch_iff {email : String} :
    isMatch email = true ↔ IsAddress (email.toList.map simpleFold) := by
  rw [isMatch, rmatch_iff_matches', emailRegex_iff]

theorem validateEmail_ok {email : String} : validateEmail email = .ok () ↔
    email.toList.length ≤ emailMaxLength ∧ IsAddress (email.toList.map simpleFold) := by
  unfold validateEmail
  split
  · rename_i out
    apply iff_of_false nofun
    rintro ⟨within, localPart, _, _, shape, -⟩
    rcases out with empty | long
    · rw [String.isEmpty_iff.mp empty] at shape
      cases localPart <;> cases shape
    · exact Nat.not_le.mpr long within
  · rename_i within
    rw [not_or, Nat.not_lt] at within
    split
    · rename_i other
      exact iff_of_false nofun fun address => other (isMatch_iff.mpr address.2)
    · rename_i found
      exact iff_of_true rfl ⟨within.2, isMatch_iff.mp (Decidable.not_not.mp found)⟩

/- Letter case. -/

theorem toLower_cases (c : Char) :
    c.toLower = c ∨ 'a'.toNat ≤ c.toLower.toNat ∧ c.toLower.toNat ≤ 'z'.toNat := by
  by_cases upper : c.val ≥ 'A'.val ∧ c.val ≤ 'Z'.val
  · right
    have lower : c.toLower.val = c.val + ('a'.val - 'A'.val) := congrArg Char.val (dif_pos upper)
    have above : 'A'.toNat ≤ c.val.toNat := UInt32.le_iff_toNat_le.mp upper.1
    have below : c.val.toNat ≤ 'Z'.toNat := UInt32.le_iff_toNat_le.mp upper.2
    have number : c.toLower.toNat = c.val.toNat + 32 := by
      change c.toLower.val.toNat = _
      rw [lower, UInt32.toNat_add]
      apply Nat.mod_eq_of_lt
      exact Nat.lt_of_le_of_lt (Nat.add_le_add_right below _) (by decide)
    rw [number]
    exact ⟨Nat.add_le_add_right above 32, Nat.add_le_add_right below 32⟩
  · exact .inl (dif_neg upper)

theorem plain_cases (c : Char) : plain c = c ∨ (c = longS ∨ c = kelvin) ∧
    (plain c = 's' ∨ plain c = 'k') := by
  unfold plain
  split
  · rename_i same
    exact .inr ⟨.inl same, .inl rfl⟩
  · split
    · rename_i same
      exact .inr ⟨.inr same, .inr rfl⟩
    · exact .inl rfl

theorem simpleFold_at {c : Char} (at_sign : simpleFold c = '@') : c = '@' := by
  unfold simpleFold at at_sign
  rcases toLower_cases (plain c) with same | letter
  · rw [same] at at_sign
    rcases plain_cases c with unchanged | ⟨-, changed | changed⟩
    · exact unchanged ▸ at_sign
    · exact absurd (changed.symm.trans at_sign) (by decide)
    · exact absurd (changed.symm.trans at_sign) (by decide)
  · rw [at_sign] at letter
    exact absurd letter (by decide)

theorem letterOrDigit_ascii {c : Char} (h : LetterOrDigit c) : c.toNat < 128 ∧ c ≠ '@' := by
  constructor
  · rcases h with ⟨-, below⟩ | ⟨-, below⟩
    · exact Nat.lt_of_le_of_lt (UInt32.le_iff_toNat_le.mp below) (by decide)
    · exact Nat.lt_of_le_of_lt (UInt32.le_iff_toNat_le.mp below) (by decide)
  · rintro rfl
    exact absurd h (by decide)

theorem punctuation_ascii : ∀ c ∈ punctuation, c.toNat < 128 ∧ c ≠ '@' := by
  have all : punctuation.all (fun c => c.toNat < 128 ∧ c ≠ '@') = true := by decide
  exact fun c mem => of_decide_eq_true (List.all_eq_true.mp all c mem)

theorem label_ascii {l : List Char} (h : IsLabel l) : ∀ c ∈ l, c.toNat < 128 ∧ c ≠ '@' := by
  intro c mem
  rcases h.chars c mem with letter | rfl
  · exact letterOrDigit_ascii letter
  · decide

theorem local_ascii {l : List Char} (h : IsLocal l) : ∀ c ∈ l, c.toNat < 128 ∧ c ≠ '@' := by
  intro c mem
  rcases h.2 c mem with letter | other
  · exact letterOrDigit_ascii letter
  · exact punctuation_ascii c other

theorem IsAddress.parts {s : List Char} (h : IsAddress s) : ∃ user host, s = user ++ '@' :: host ∧
    '@' ∉ user ∧ '@' ∉ host ∧ ∀ c ∈ s, c.toNat < 128 := by
  obtain ⟨user, l, labels, rfl, valid, first, -, all⟩ := h
  have host : ∀ c ∈ l ++ labels.flatMap ('.' :: ·), c.toNat < 128 ∧ c ≠ '@' := by
    intro c mem
    rcases List.mem_append.mp mem with inFirst | later
    · exact label_ascii first c inFirst
    · obtain ⟨l', inside, mem⟩ := List.mem_flatMap.mp later
      rcases List.mem_cons.mp mem with rfl | mem
      · decide
      · exact label_ascii (all l' inside) c mem
  refine ⟨user, _, rfl, ?_, ?_, ?_⟩
  · exact fun mem => (local_ascii valid _ mem).2 rfl
  · exact fun mem => (host _ mem).2 rfl
  · intro c mem
    rcases List.mem_append.mp mem with inUser | later
    · exact (local_ascii valid c inUser).1
    · rcases List.mem_cons.mp later with rfl | inHost
      · decide
      · exact (host c inHost).1

/-- Only letters fold at all, so what is accepted has one `@` too. -/
theorem accepted_parts {s : List Char} (h : IsAddress (s.map simpleFold)) :
    ∃ user host, s = user ++ '@' :: host ∧ '@' ∉ user ∧ '@' ∉ host := by
  obtain ⟨user, host, shape, noUser, noHost, -⟩ := h.parts
  obtain ⟨user, rest, rfl, rfl, tail⟩ := List.map_eq_append_iff.mp shape
  obtain ⟨c, host, rfl, separator, rfl⟩ := List.map_eq_cons_iff.mp tail
  refine ⟨user, host, ?_, ?_, ?_⟩
  · rw [simpleFold_at separator]
  · exact fun mem => noUser (List.mem_map.mpr ⟨'@', mem, by decide⟩)
  · exact fun mem => noHost (List.mem_map.mpr ⟨'@', mem, by decide⟩)

def replaced (email : String) : String := .ofList (email.toList.map plain)

theorem specified_replaced {email : String} : Specified (replaced email) ↔
    email.toList.length ≤ emailMaxLength ∧ IsAddress (email.toList.map simpleFold) := by
  rw [Specified, replaced, String.toList_ofList, List.length_map, List.map_map]
  exact Iff.rfl

theorem not_specified {email : String} {c : Char} (mem : c ∈ email.toList)
    (beyond : c = longS ∨ c = kelvin) : ¬ Specified email := by
  rintro ⟨_, address⟩
  obtain ⟨_, _, _, _, _, ascii⟩ := address.parts
  have small := ascii c.toLower (List.mem_map.mpr ⟨c, mem, rfl⟩)
  rcases beyond with rfl | rfl
  · exact absurd small (by decide)
  · exact absurd small (by decide)

/-- The addresses that are accepted are those that are meant, and those with one of the two
letters beyond ASCII in them. All of them have one `@`, and nothing in front of it is shown. -/
theorem email_validation (typeName email : String) :
    ((validateEmail email = .ok () ↔ Specified email) ↔
      (∀ c ∈ email.toList, c ≠ longS ∧ c ≠ kelvin) ∨ ¬ Specified (replaced email)) ∧
    ∀ e, Email.fromStr email = .ok e → email ≠ redacted →
      ∃ user host, email.toList = user ++ '@' :: host ∧ '@' ∉ user ∧ '@' ∉ host ∧
        EmailStrategy.fmt typeName e.secret =
          .ok (.ofList (stars (byteLen user) ++ '@' :: host)) := by
  have valid : validateEmail email = .ok () ↔ Specified (replaced email) := by
    rw [validateEmail_ok, specified_replaced]
  constructor
  · rw [valid]
    by_cases beyond : ∃ c ∈ email.toList, c = longS ∨ c = kelvin
    · obtain ⟨c, mem, beyond⟩ := beyond
      have some : ¬ ∀ c ∈ email.toList, c ≠ longS ∧ c ≠ kelvin := by
        intro none
        rcases beyond with same | same
        · exact (none c mem).1 same
        · exact (none c mem).2 same
      rw [iff_false_right (not_specified mem beyond), or_iff_right some]
    · have none : ∀ c ∈ email.toList, c ≠ longS ∧ c ≠ kelvin := by
        intro c mem
        exact ⟨fun same => beyond ⟨c, mem, .inl same⟩, fun same => beyond ⟨c, mem, .inr same⟩⟩
      have same : replaced email = email := by
        have unchanged : email.toList.map plain = email.toList.map fun c => c := by
          apply List.map_congr_left
          intro c mem
          rcases plain_cases c with same | ⟨special, -⟩
          · exact same
          · exact absurd ⟨c, mem, special⟩ beyond
        rw [replaced, unchanged, List.map_id', String.ofList_toList]
      rw [same]
      exact iff_of_true Iff.rfl (.inl none)
  · intro e made other
    unfold Email.fromStr at made
    rw [if_neg other] at made
    cases validated : validateEmail email with
    | error e => rw [validated] at made; cases made
    | ok =>
      rw [validated] at made
      cases made
      obtain ⟨user, host, shape, noUser, noHost⟩ := accepted_parts (validateEmail_ok.mp validated).2
      refine ⟨user, host, shape, noUser, noHost, ?_⟩
      have split : splitOnce '@' email.toList = some (user, host) :=
        splitOnce_some.mpr ⟨shape, noUser⟩
      simp only [EmailStrategy.fmt, maskUserPart, split]

/-- The Kelvin sign counts as a letter. -/
theorem kelvin_accepted :
    ¬ (validateEmail "\u212a@a.com" = .ok () ↔ Specified "\u212a@a.com") := by
  intro same
  have label : ∀ l ∈ [['a'], "com".toList], IsLabel l := by
    intro l mem
    simp only [List.mem_cons, List.not_mem_nil, or_false] at mem
    have chars : ∀ c ∈ l, LetterOrDigit c ∨ c = '-' := by
      have all : l.all (fun c => LetterOrDigit c ∨ c = '-') = true := by
        rcases mem with rfl | rfl <;> decide
      exact fun c inside => of_decide_eq_true (List.all_eq_true.mp all c inside)
    rcases mem with rfl | rfl
    · exact ⟨by decide, by decide, chars, by decide, by decide⟩
    · exact ⟨by decide, by decide, chars, by decide, by decide⟩
  have address : IsAddress ("\u212a@a.com".toList.map simpleFold) :=
    ⟨['k'], ['a'], ["com".toList], by decide,
      ⟨by decide, List.forall_mem_singleton.mpr (.inl (by decide))⟩,
      label _ (by decide), by decide, fun l mem => label l (List.mem_cons_of_mem _ mem)⟩
  have accepted := validateEmail_ok.mpr ⟨by decide, address⟩
  exact not_specified (by decide) (.inr rfl) (same.mp accepted)

end Mercado.Pii
