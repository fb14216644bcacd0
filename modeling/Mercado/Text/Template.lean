import Mathlib.Data.List.Infix

/-! Format strings with arguments in braces. The string is read one character after the other. -/
namespace Text

section Contains

variable {α : Type} [DecidableEq α]

def contains (l pattern : List α) : Bool := l.tails.any pattern.isPrefixOf

theorem contains_iff {l pattern : List α} : contains l pattern = true ↔ pattern <:+: l := by
  rw [contains, List.any_eq_true, List.infix_iff_prefix_suffix]
  constructor
  · rintro ⟨rest, mem, found⟩
    exact ⟨rest, List.isPrefixOf_iff_prefix.mp found, List.mem_tails rest l |>.mp mem⟩
  · rintro ⟨rest, found, suffix⟩
    exact ⟨rest, List.mem_tails rest l |>.mpr suffix, List.isPrefixOf_iff_prefix.mpr found⟩

end Contains

namespace Template

/-- Where the reader is. `fill` is at the first character of a format specification, which is
the fill if an alignment follows. -/
inductive Mode where
  | text | closing | name (read : List Char) | trailing | fill | spec

def Mode.read : Mode → List Char
  | .name read => read
  | _ => []

def isAlignment (c : Char) : Bool := c = '<' || c = '^' || c = '>'

def stepSpec (c : Char) : Option (Mode × List (List Char)) :=
  if c = '}' then some (.text, [])
  else if c = '{' then none
  else some (.spec, [])

variable (blank : Char → Bool)

/-- One character, and the arguments that it completes. A doubled brace is text. -/
def step (next : Option Char) : Mode → Char → Option (Mode × List (List Char))
  | .text, c =>
    if c = '{' then some (.name [], [])
    else if c = '}' then some (.closing, [])
    else some (.text, [])
  | .closing, c => if c = '}' then some (.text, []) else none
  | .name read, c =>
    if c = '{' then if read.isEmpty then some (.text, []) else none
    else if c = '}' then some (.text, [read])
    else if c = ':' then some (.fill, [read])
    else if blank c then some (.trailing, [read])
    else some (.name (read ++ [c]), [])
  | .trailing, c =>
    if c = '}' then some (.text, []) else if blank c then some (.trailing, []) else none
  | .fill, c => if next.any isAlignment then some (.spec, []) else stepSpec c
  | .spec, c => stepSpec c

def scan : Mode → List Char → Option (List (List Char))
  | .text, [] => some []
  | _, [] => none
  | mode, c :: l =>
    match step blank l.head? mode c with
    | none => none
    | some (mode', names) => (scan mode' l).map (names ++ ·)

def arguments (message : String) : Option (List (List Char)) := scan blank .text message.toList

def Interpolates (message name : String) : Prop :=
  ∃ names, arguments blank message = some names ∧ name.toList ∈ names

variable {blank} {next : Option Char} {mode mode' : Mode} {c : Char} {names : List (List Char)}

theorem step_read (stepped : step blank next mode c = some (mode', names)) :
    (names = [] ∨ names = [mode.read]) ∧ (mode'.read = [] ∨ mode'.read = mode.read ++ [c]) := by
  have spec : stepSpec c = some (mode', names) → names = [] ∧ mode'.read = [] := by
    intro specified
    rw [stepSpec] at specified
    split_ifs at specified <;> cases specified <;> exact ⟨rfl, rfl⟩
  cases mode with
  | text =>
    rw [step] at stepped
    split_ifs at stepped <;> cases stepped <;> exact ⟨.inl rfl, .inl rfl⟩
  | closing =>
    rw [step] at stepped
    split_ifs at stepped
    cases stepped
    exact ⟨.inl rfl, .inl rfl⟩
  | name read =>
    rw [step] at stepped
    split_ifs at stepped <;> cases stepped
    · exact ⟨.inl rfl, .inl rfl⟩
    · exact ⟨.inr rfl, .inl rfl⟩
    · exact ⟨.inr rfl, .inl rfl⟩
    · exact ⟨.inr rfl, .inl rfl⟩
    · exact ⟨.inl rfl, .inr rfl⟩
  | trailing =>
    rw [step] at stepped
    split_ifs at stepped <;> cases stepped <;> exact ⟨.inl rfl, .inl rfl⟩
  | fill =>
    rw [step] at stepped
    split_ifs at stepped
    · cases stepped
      exact ⟨.inl rfl, .inl rfl⟩
    · exact ⟨.inl (spec stepped).1, .inl (spec stepped).2⟩
  | spec => exact ⟨.inl (spec stepped).1, .inl (spec stepped).2⟩

theorem infix_of_scan {l : List Char} (scanned : scan blank mode l = some names)
    {name : List Char} (mem : name ∈ names) : name <:+: mode.read ++ l := by
  induction l generalizing mode names with
  | nil =>
    cases mode with
    | text =>
      cases scanned
      cases mem
    | closing | name | trailing | fill | spec => cases scanned
  | cons c l ih =>
    rw [scan] at scanned
    split at scanned
    · cases scanned
    · rename_i mode' done stepped
      obtain ⟨later, rest, rfl⟩ := Option.map_eq_some_iff.mp scanned
      obtain ⟨completed, reads⟩ := step_read stepped
      rcases List.mem_append.mp mem with now | after
      · rcases completed with rfl | rfl
        · cases now
        · obtain rfl := List.mem_singleton.mp now
          exact (List.prefix_append _ _).isInfix
      · have found := ih rest after
        rcases reads with none | more
        · rw [none, List.nil_append] at found
          have later : l <:+: mode.read ++ c :: l := ⟨mode.read ++ [c], [], by simp⟩
          exact found.trans later
        · rw [more, List.append_assoc] at found
          exact found

theorem Interpolates.infix {message name : String}
    (interpolated : Interpolates blank message name) : name.toList <:+: message.toList := by
  obtain ⟨names, scanned, mem⟩ := interpolated
  exact infix_of_scan scanned mem

end Template

end Text
