import Mathlib.Data.List.Basic

/-! What a derive macro is given: the tokens of the attributes, the fields and the variants, and
the parsers that read values off the tokens. -/
namespace Mercado.Derive

structure Ident where
  text : String
  raw : Bool
  deriving DecidableEq

def Ident.of (text : String) : Ident := ⟨text, false⟩

def Ident.display (ident : Ident) : String := if ident.raw then "r#" ++ ident.text else ident.text

/-- The tokens inside the parentheses of an attribute; a keyword is one of the others. -/
inductive Token where
  | ident (ident : Ident)
  | literal (value : String)
  | eq
  | comma
  | other (text : String)
  deriving DecidableEq

inductive Args where
  | path
  | list (tokens : List Token)
  | nameValue (value : String)
  deriving DecidableEq

structure Attribute where
  path : String
  args : Args
  deriving DecidableEq

structure Field where
  attrs : List Attribute
  vis : String
  ident : Ident
  ty : String
  deriving DecidableEq

structure FieldsNamed where
  named : List Field
  distinct : (named.map Field.ident).Nodup

inductive Fields where
  | unit
  | unnamed (types : List String)
  | named (fields : FieldsNamed)

structure Variant where
  attrs : List Attribute
  ident : Ident
  fields : Fields

inductive Data where
  | struct (fields : Fields)
  | enum (variants : List Variant)
  | union

structure DeriveInput where
  attrs : List Attribute
  ident : Ident
  data : Data

inductive SynError where
  | expected (what : String)
  | messages (texts : List String)
  deriving DecidableEq

/- Parsers, which take a value off the front of the tokens. -/

class Parse (T : Type) where
  parse : List Token → Except SynError (T × List Token)

def parseIdent : List Token → Except SynError (Ident × List Token)
  | .ident ident :: tokens => .ok (ident, tokens)
  | _ => .error (.expected "identifier")

instance : Parse Ident := ⟨parseIdent⟩

def parseLitStr : List Token → Except SynError (String × List Token)
  | .literal value :: tokens => .ok (value, tokens)
  | _ => .error (.expected "string literal")

def parseEq : List Token → Except SynError (List Token)
  | .eq :: tokens => .ok tokens
  | _ => .error (.expected "`=`")

section Terminated

variable {T : Type} [Parse T]

/-- `Punctuated::parse_terminated`: values with commas between them, and perhaps one at the end.
Each turn of the loop takes a comma, so the number of tokens is enough fuel. -/
def terminated : Nat → List Token → Except SynError (List T)
  | _, [] => .ok []
  | 0, _ :: _ => .error (.expected "end of input")
  | fuel + 1, token :: tokens =>
    match Parse.parse (token :: tokens) with
    | .error error => .error error
    | .ok (value, []) => .ok [value]
    | .ok (value, .comma :: rest) => (terminated fuel rest).map (value :: ·)
    | .ok (_, _ :: _) => .error (.expected "`,`")

def Attribute.parseArgsTerminated (attr : Attribute) : Except SynError (List T) :=
  match attr.args with
  | .list tokens => terminated tokens.length tokens
  | _ => .error (.expected "attribute arguments in parentheses")

end Terminated

/- Values that are read from tokens of one form only. -/

class LawfulParse (T : Type) extends Parse T where
  tokens : T → List Token
  tokens_ne_nil (value : T) : tokens value ≠ []
  parse_iff (input : List Token) (value : T) (rest : List Token) :
    parse input = .ok (value, rest) ↔ input = tokens value ++ rest

instance : LawfulParse Ident where
  tokens ident := [.ident ident]
  tokens_ne_nil _ := List.cons_ne_nil _ _
  parse_iff input value rest := by
    constructor
    · intro parsed
      change parseIdent input = _ at parsed
      unfold parseIdent at parsed
      split at parsed
      · cases parsed
        rfl
      · cases parsed
    · rintro rfl
      rfl

variable {T : Type} [LawfulParse T]

inductive Listed : List Token → List T → Prop
  | nil : Listed [] []
  | last (value : T) : Listed (LawfulParse.tokens value) [value]
  | cons (value : T) {tokens : List Token} {values : List T} (rest : Listed tokens values) :
    Listed (LawfulParse.tokens value ++ .comma :: tokens) (value :: values)

theorem listed_of_terminated {fuel : Nat} {tokens : List Token} {values : List T}
    (parsed : terminated fuel tokens = .ok values) : Listed tokens values := by
  induction fuel generalizing tokens values with
  | zero =>
    cases tokens with
    | nil =>
      cases parsed
      exact .nil
    | cons => cases parsed
  | succ fuel ih =>
    cases tokens with
    | nil =>
      cases parsed
      exact .nil
    | cons token tokens =>
      rw [terminated] at parsed
      split at parsed
      · cases parsed
      · rename_i value first
        cases parsed
        rw [(LawfulParse.parse_iff _ _ _).mp first, List.append_nil]
        exact .last value
      · rename_i value rest first
        rw [(LawfulParse.parse_iff _ _ _).mp first]
        cases later : terminated (T := T) fuel rest with
        | error error =>
          rw [later] at parsed
          cases parsed
        | ok values' =>
          rw [later] at parsed
          cases parsed
          exact .cons value (ih later)
      · cases parsed

theorem terminated_cons {fuel : Nat} {tokens rest : List Token} {value : T}
    (first : tokens = LawfulParse.tokens value ++ .comma :: rest) :
    terminated (fuel + 1) tokens = (terminated fuel rest).map (value :: ·) := by
  have parsed := (LawfulParse.parse_iff tokens value (.comma :: rest)).mpr first
  cases tokens with
  | nil => cases (List.append_eq_nil_iff.mp first.symm).2
  | cons token tokens => rw [terminated, parsed]

theorem terminated_last {fuel : Nat} (value : T)
    (enough : (LawfulParse.tokens value).length ≤ fuel) :
    terminated fuel (LawfulParse.tokens value) = .ok [value] := by
  have parsed := (LawfulParse.parse_iff (LawfulParse.tokens value) value []).mpr
    (List.append_nil _).symm
  have some := LawfulParse.tokens_ne_nil value
  cases form : LawfulParse.tokens value with
  | nil => exact absurd form some
  | cons token tokens =>
    rw [form] at parsed enough
    cases fuel with
    | zero => exact absurd enough (Nat.not_succ_le_zero _)
    | succ fuel => rw [terminated, parsed]

theorem terminated_of_listed {tokens : List Token} {values : List T}
    (listed : Listed tokens values) {fuel : Nat} (enough : tokens.length ≤ fuel) :
    terminated fuel tokens = .ok values := by
  induction listed generalizing fuel with
  | nil => cases fuel <;> rfl
  | last value =>
    exact terminated_last value enough
  | @cons value tokens values rest ih =>
    rw [List.length_append, List.length_cons] at enough
    cases fuel with
    | zero => omega
    | succ fuel =>
      rw [terminated_cons rfl, ih (by omega)]
      rfl

def Attribute.Reads (attr : Attribute) (values : List T) : Prop :=
  ∃ tokens, attr.args = .list tokens ∧ Listed tokens values

theorem parseArgsTerminated_ok_iff {attr : Attribute} {values : List T} :
    attr.parseArgsTerminated = .ok values ↔ attr.Reads values := by
  unfold Attribute.parseArgsTerminated Attribute.Reads
  constructor
  · intro parsed
    split at parsed
    · rename_i tokens args
      exact ⟨tokens, args, listed_of_terminated parsed⟩
    · cases parsed
  · rintro ⟨tokens, args, listed⟩
    rw [args]
    exact terminated_of_listed listed (Nat.le_refl _)

end Mercado.Derive
