import Mercado.Arith.Checked
import Mercado.Text.Split
import Mercado.Text.Utf8

/-! How secrets are shown: a strategy lets a part of the text through, or shows the name of
its type alone. -/
namespace Mercado.Pii
open Checked Text

def withType (typeName : String) : String := "*** " ++ typeName ++ " ***"

def stars (n : Nat) : List Char := List.replicate n '*'

def maskUserPart (typeName val : String) : Except Panic String :=
  match splitOnce '@' val.toList with
  | some (a, b) => .ok (.ofList (stars (byteLen a) ++ '@' :: b))
  | none => .ok (withType typeName)

def EmailStrategy.fmt : (typeName val : String) → Except Panic String := maskUserPart

def UpiVpaMaskingStrategy.fmt : (typeName val : String) → Except Panic String := maskUserPart

def IpAddress.fmt (typeName val : String) : Except Panic String :=
  let segments := val.toList.splitOn '.'
  if segments.length ≠ 4 then .ok (withType typeName)
  else if segments.any fun seg => seg.isEmpty || byteLen seg > 3 then .ok (withType typeName)
  else
    match segments.head? with
    | some seg => .ok (.ofList (seg ++ ".**.**.**".toList))
    | none => .ok (withType typeName)

/-- The sum of the two lengths and 2 is in range: both are pieces of one text. -/
def ClientSecret.fmt (build : Build) (typeName val : String) : Except Panic String :=
  let segments := val.toList.splitOn '_'
  if segments.length ≠ 4 || !segments.contains "pay".toList ||
      !segments.contains "secret".toList then
    .ok (withType typeName)
  else
    match segments.head?, segments[1]? with
    | some first, some second => do
      let hidden ← build.subUsize (byteLen val.toList) (byteLen first + byteLen second + 2)
      return .ofList (first ++ '_' :: (second ++ '_' :: stars hidden))
    | _, _ => .ok (withType typeName)

/-- Inside of the branch the name `val_str` stands for the four bytes that were found. -/
def PhoneNumberStrategy.fmt (build : Build) (typeName val : String) : Except Panic String := do
  let start ← build.subUsize (byteLen val.toList) 4
  match fromByte start val.toList with
  | some valStr => do
    let hidden ← build.subUsize (byteLen valStr) 4
    return .ofList (stars hidden ++ valStr)
  | none => return withType typeName

/- What the strategies take a text apart into: what may be seen of it and what may not. -/

def UserAtHost (val : String) (seen hidden : List Char) : Prop :=
  val.toList = hidden ++ '@' :: seen ∧ '@' ∉ hidden

def Octet (seg : List Char) : Prop := '.' ∉ seg ∧ seg ≠ [] ∧ byteLen seg ≤ 3

def FourOctets (val : String) (seen hidden : List Char) : Prop :=
  ∃ b c d, hidden = b ++ '.' :: (c ++ '.' :: d) ∧ val.toList = seen ++ '.' :: hidden ∧
    ∀ seg ∈ [seen, b, c, d], Octet seg

def FourSegments (val : String) (seen : List Char × List Char) (hidden : List Char) : Prop :=
  ∃ c d, hidden = c ++ '_' :: d ∧ val.toList = seen.1 ++ '_' :: (seen.2 ++ '_' :: hidden) ∧
    (∀ seg ∈ [seen.1, seen.2, c, d], '_' ∉ seg) ∧
    "pay".toList ∈ [seen.1, seen.2, c, d] ∧ "secret".toList ∈ [seen.1, seen.2, c, d]

/-- Of texts of this shape nothing but the one part and the length of the other is shown, of
all others nothing. -/
structure RevealsOnly {P : Type} (typeName : String) (fmt : String → Except Panic String)
    (Shape : String → P → List Char → Prop) : Prop where
  same : ∀ s t seen hidden hidden', Shape s seen hidden → Shape t seen hidden' →
    byteLen hidden = byteLen hidden' → fmt s = fmt t
  other : ∀ s, (¬ ∃ seen hidden, Shape s seen hidden) → fmt s = .ok (withType typeName)
  safe : ∀ s, ∃ text, fmt s = .ok text

theorem RevealsOnly.of_shown {P : Type} {typeName : String} {fmt : String → Except Panic String}
    {Shape : String → P → List Char → Prop} (shown : P → Nat → String)
    (shape : ∀ s seen hidden, Shape s seen hidden → fmt s = .ok (shown seen (byteLen hidden)))
    (other : ∀ s, (¬ ∃ seen hidden, Shape s seen hidden) → fmt s = .ok (withType typeName)) :
    RevealsOnly typeName fmt Shape where
  same s t seen hidden hidden' hs ht length := by
    rw [shape s seen hidden hs, shape t seen hidden' ht, length]
  other := other
  safe s := by
    by_cases h : ∃ seen hidden, Shape s seen hidden
    · obtain ⟨seen, hidden, h⟩ := h
      exact ⟨_, shape s seen hidden h⟩
    · exact ⟨_, other s h⟩

variable {typeName : String}

theorem maskUserPart_reveals : RevealsOnly typeName (maskUserPart typeName) UserAtHost := by
  apply RevealsOnly.of_shown fun seen length => .ofList (stars length ++ '@' :: seen)
  · intro s seen hidden shape
    have split : splitOnce '@' s.toList = some (hidden, seen) := splitOnce_some.mpr shape
    simp only [maskUserPart, split]
  · intro s other
    have split : splitOnce '@' s.toList = none := by
      cases split : splitOnce '@' s.toList with
      | none => rfl
      | some pieces => exact absurd ⟨_, _, splitOnce_some.mp split⟩ other
    simp only [maskUserPart, split]

theorem four_pieces {sep : Char} {l a b c d : List Char} : l.splitOn sep = [a, b, c, d] ↔
    l = a ++ sep :: (b ++ sep :: (c ++ sep :: d)) ∧ ∀ seg ∈ [a, b, c, d], sep ∉ seg := by
  have joined : [sep].intercalate [a, b, c, d] = a ++ sep :: (b ++ sep :: (c ++ sep :: d)) := by
    simp [List.intercalate]
  rw [splitOn_iff (List.cons_ne_nil _ _), joined]

theorem length_four {pieces : List (List Char)} (four : pieces.length = 4) :
    ∃ a b c d, pieces = [a, b, c, d] := by
  match pieces, four with
  | [a, b, c, d], _ => exact ⟨a, b, c, d, rfl⟩

theorem IpAddress.reveals : RevealsOnly typeName (IpAddress.fmt typeName) FourOctets := by
  apply RevealsOnly.of_shown fun seen _ => .ofList (seen ++ ".**.**.**".toList)
  · rintro s seen _ ⟨b, c, d, rfl, text, octets⟩
    have split : s.toList.splitOn '.' = [seen, b, c, d] :=
      four_pieces.mpr ⟨text, fun seg mem => (octets seg mem).1⟩
    have fine : ¬ [seen, b, c, d].any (fun seg => seg.isEmpty || byteLen seg > 3) = true := by
      rw [List.any_eq_true]
      rintro ⟨seg, mem, bad⟩
      obtain ⟨-, some, short⟩ := octets seg mem
      rw [Bool.or_eq_true, List.isEmpty_iff, decide_eq_true_iff] at bad
      rcases bad with empty | long
      · exact some empty
      · omega
    simp only [IpAddress.fmt, split]
    rw [if_neg fun wrong => wrong rfl, if_neg fine]
    rfl
  · intro s other
    simp only [IpAddress.fmt]
    split
    · rfl
    · rename_i four
      obtain ⟨a, b, c, d, pieces⟩ := length_four (Decidable.not_not.mp four)
      obtain ⟨text, absent⟩ := four_pieces.mp pieces
      rw [pieces]
      split
      · rfl
      · rename_i fine
        refine absurd ⟨a, _, b, c, d, rfl, text, fun seg mem => ⟨absent seg mem, ?_, ?_⟩⟩ other
        · rintro rfl
          exact fine (List.any_eq_true.mpr ⟨[], mem, rfl⟩)
        · apply Nat.le_of_not_gt
          intro long
          exact fine (List.any_eq_true.mpr ⟨seg, mem, by simp [long]⟩)

theorem ClientSecret.reveals (build : Build) :
    RevealsOnly typeName (ClientSecret.fmt build typeName) FourSegments := by
  apply RevealsOnly.of_shown fun seen length =>
    .ofList (seen.1 ++ '_' :: (seen.2 ++ '_' :: stars length))
  · rintro s ⟨a, b⟩ _ ⟨c, d, rfl, text, absent, pay, secret⟩
    have split : s.toList.splitOn '_' = [a, b, c, d] := four_pieces.mpr ⟨text, absent⟩
    have fine : ¬ ([a, b, c, d].length ≠ 4 || !([a, b, c, d].contains "pay".toList) ||
        !([a, b, c, d].contains "secret".toList)) = true := by
      rw [List.contains_iff_mem.mpr pay, List.contains_iff_mem.mpr secret]
      simp
    have underscore : '_'.utf8Size = 1 := rfl
    have length : byteLen s.toList =
        byteLen (c ++ '_' :: d) + (byteLen a + byteLen b + 2) := by
      rw [text]
      simp only [byteLen_append, byteLen, underscore]
      omega
    have hidden : build.subUsize (byteLen s.toList) (byteLen a + byteLen b + 2) =
        .ok (byteLen (c ++ '_' :: d)) := by
      rw [length, subUsize_fits (Nat.le_add_left ..), Nat.add_sub_cancel]
    simp only [ClientSecret.fmt, split]
    rw [if_neg fine]
    simp only [List.head?_cons, List.getElem?_cons_succ, List.getElem?_cons_zero, hidden]
    rfl
  · intro s other
    simp only [ClientSecret.fmt]
    split
    · rfl
    · rename_i fine
      simp only [Bool.or_eq_true, Bool.not_eq_true', decide_eq_true_eq, not_or, ne_eq,
        Decidable.not_not, Bool.not_eq_false, List.contains_iff_mem] at fine
      obtain ⟨⟨four, pay⟩, secret⟩ := fine
      obtain ⟨a, b, c, d, pieces⟩ := length_four four
      obtain ⟨text, absent⟩ := four_pieces.mp pieces
      rw [pieces] at pay secret
      exact absurd ⟨(a, b), _, c, d, rfl, text, absent, pay, secret⟩ other

/-- What is shown of e-mail and virtual payment addresses, of IP addresses and of client secrets
says nothing of the rest but its length. -/
theorem masks_reveal_only (build : Build) (typeName : String) :
    RevealsOnly typeName (EmailStrategy.fmt typeName) UserAtHost ∧
    RevealsOnly typeName (UpiVpaMaskingStrategy.fmt typeName) UserAtHost ∧
    RevealsOnly typeName (IpAddress.fmt typeName) FourOctets ∧
    RevealsOnly typeName (ClientSecret.fmt build typeName) FourSegments :=
  ⟨maskUserPart_reveals, maskUserPart_reveals, IpAddress.reveals, ClientSecret.reveals build⟩

/- Phone numbers. -/

def LastFour (val text : String) : Prop :=
  byteLen text.toList = byteLen val.toList ∧ ∃ front last, val.toList = front ++ last ∧
    byteLen last = 4 ∧ text.toList = stars (byteLen front) ++ last

/-- Formatting does not fail and shows the mask, or nothing but the last four bytes. -/
def ShownMasked (build : Build) (typeName val : String) : Prop :=
  ∃ text, PhoneNumberStrategy.fmt build typeName val = .ok text ∧
    (text = withType typeName ∨ LastFour val text)

def EndsInFour (val : String) : Prop :=
  ∃ front last, val.toList = front ++ last ∧ byteLen last = 4

variable {build : Build} {val : String}

theorem fromByte_last {front last : List Char}
    (split : val.toList = front ++ last) (four : byteLen last = 4) :
    fromByte (byteLen val.toList - 4) val.toList = some last := by
  refine fromByte_iff.mpr ⟨front, split, ?_⟩
  rw [split, byteLen_append, four]
  omega

theorem PhoneNumberStrategy.shown {front last : List Char} (split : val.toList = front ++ last)
    (four : byteLen last = 4) : fmt build typeName val = .ok (.ofList last) := by
  have long : 4 ≤ byteLen val.toList := by
    rw [split, byteLen_append, four]
    exact Nat.le_add_left ..
  have hidden : build.subUsize (byteLen last) 4 = .ok 0 := by
    rw [subUsize_fits (Nat.le_of_eq four.symm), four]
  simp only [fmt, subUsize_fits long, bind, Except.bind, fromByte_last split four, hidden]
  rfl

theorem PhoneNumberStrategy.unshown (long : 4 ≤ byteLen val.toList) (uncut : ¬ EndsInFour val) :
    fmt build typeName val = .ok (withType typeName) := by
  have none : fromByte (byteLen val.toList - 4) val.toList = none := by
    cases found : fromByte (byteLen val.toList - 4) val.toList with
    | none => rfl
    | some last =>
      obtain ⟨front, split, length⟩ := fromByte_iff.mp found
      have whole := congrArg byteLen split
      rw [byteLen_append] at whole
      exact absurd ⟨front, last, split, by omega⟩ uncut
  simp only [fmt, subUsize_fits long, bind, Except.bind, none]
  rfl

theorem PhoneNumberStrategy.short (typeName : String) (short : byteLen val.toList < 4) :
    fmt .debug typeName val = .error .overflow ∧
      fmt .release typeName val = .ok (withType typeName) := by
  have apart : ¬ 4 ≤ byteLen val.toList := Nat.not_le.mpr short
  constructor
  · simp only [fmt, Build.subUsize, debug_fit apart]
    rfl
  · have start : Build.release.subUsize (byteLen val.toList) 4 =
        .ok (2 ^ 64 + byteLen val.toList - 4) := by
      rw [Build.subUsize, if_neg apart]
      exact if_neg fun wrong => by cases wrong.2
    have out : fromByte (2 ^ 64 + byteLen val.toList - 4) val.toList = none := by
      cases found : fromByte (2 ^ 64 + byteLen val.toList - 4) val.toList with
      | none => rfl
      | some last =>
        obtain ⟨front, text, length⟩ := fromByte_iff.mp found
        have whole := congrArg byteLen text
        rw [byteLen_append] at whole
        omega
    simp only [fmt, start, bind, Except.bind, out]
    rfl

theorem byteLen_withType (typeName : String) : 8 ≤ byteLen (withType typeName).toList := by
  rw [withType, String.toList_append, String.toList_append, byteLen_append, byteLen_append]
  have ends : byteLen "*** ".toList = 4 ∧ byteLen " ***".toList = 4 := ⟨rfl, rfl⟩
  omega

/-- Of a text of four bytes all may be seen. Of a longer one the stars are missing. -/
theorem shownMasked_cut (cut : EndsInFour val) :
    ShownMasked build typeName val ↔ byteLen val.toList = 4 := by
  obtain ⟨front, last, split, four⟩ := cut
  have shown : PhoneNumberStrategy.fmt build typeName val = .ok (.ofList last) :=
    PhoneNumberStrategy.shown split four
  constructor
  · rintro ⟨text, fine, masked | hidden⟩
    · cases shown.symm.trans fine
      have mask := byteLen_withType typeName
      rw [← masked, String.toList_ofList, four] at mask
      omega
    · cases shown.symm.trans fine
      rw [← hidden.1, String.toList_ofList, four]
  · intro whole
    have nothing : byteLen front = 0 := by
      rw [split, byteLen_append, four] at whole
      omega
    refine ⟨_, shown, .inr ⟨?_, front, last, split, four, ?_⟩⟩
    · rw [String.toList_ofList, four, whole]
    · rw [nothing]
      exact String.toList_ofList

/-- Phone numbers are hidden as they should be only where the text has four bytes, or more and the
last four cannot be cut off, or fewer and overflow is not checked. -/
theorem phone_number_masked (build : Build) (typeName val : String) :
    ShownMasked build typeName val ↔
      byteLen val.toList = 4 ∨ (4 < byteLen val.toList ∧ ¬ EndsInFour val) ∨
        (byteLen val.toList < 4 ∧ build = .release) := by
  rcases Nat.lt_or_ge (byteLen val.toList) 4 with short | long
  · obtain ⟨panics, masked⟩ := PhoneNumberStrategy.short typeName short
    cases build with
    | debug =>
      apply iff_of_false
      · rintro ⟨text, fine, -⟩
        cases panics.symm.trans fine
      · rintro (four | ⟨longer, -⟩ | ⟨-, release⟩)
        · omega
        · omega
        · cases release
    | release => exact iff_of_true ⟨_, masked, .inl rfl⟩ (.inr (.inr ⟨short, rfl⟩))
  · by_cases cut : EndsInFour val
    · rw [shownMasked_cut cut]
      constructor
      · exact .inl
      · rintro (four | ⟨-, uncut⟩ | ⟨short, -⟩)
        · exact four
        · exact absurd cut uncut
        · omega
    · have masked : PhoneNumberStrategy.fmt build typeName val = .ok (withType typeName) :=
        PhoneNumberStrategy.unshown long cut
      refine iff_of_true ⟨_, masked, .inl rfl⟩ ?_
      rcases Nat.lt_or_eq_of_le long with longer | four
      · exact .inr (.inl ⟨longer, cut⟩)
      · exact .inl four.symm

theorem phone_number_shown : ¬ ShownMasked .debug "alloc::string::String" "9123456789" := by
  rintro ⟨text, fine, masked | ⟨length, -⟩⟩
  · cases fine
    exact absurd masked (by decide)
  · cases fine
    exact absurd length (by decide)

end Mercado.Pii
