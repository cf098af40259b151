import NodeModel.Declaration.Problem
import NodeModel.Text.Pieces

/-! Field lines: a name, a colon, a type, and attributes in any order. -/
namespace NodeModel.Declaration

open Text

inductive Attribute where
  | deferred
  | hidden
  | copying (mode : CopyMode)
deriving DecidableEq, Repr

def Attribute.ofWord? : String → Option Attribute
  | "deferred" => some .deferred
  | "hidden" => some .hidden
  | "deep" => some (.copying .deep)
  | "share" => some (.copying .share)
  | "reset" => some (.copying .reset)
  | "external_copy" => some (.copying .external)
  | _ => none

def Attribute.apply (policy : FieldPolicy) : Attribute → Except Problem FieldPolicy
  | .deferred => .ok { policy with bound := false }
  | .hidden => .ok { policy with visitable := false }
  | .copying mode =>
    match policy.copyMode with
    | some earlier => .error (.conflictingCopies earlier mode)
    | none => .ok { policy with copyMode := some mode }

/-- Attributes are taken from left to right; `seen` are the words taken before. -/
def readAttributes (seen : List String) (policy : FieldPolicy) :
    List (List Char) → Except Problem FieldPolicy
  | [] => .ok policy
  | token :: rest =>
    match token with
    | '@' :: word =>
      let word := String.ofList word
      if seen.contains word then .error (.repeatedAttribute word)
      else match Attribute.ofWord? word with
        | none => .error (.unknownAttribute word)
        | some found => do
          readAttributes (word :: seen) (← found.apply policy) rest
    | _ => .error (.notAttribute (String.ofList token))

/-- The text between square brackets, if the whole text stands between them. -/
def bracketed? : List Char → Option (List Char)
  | '[' :: rest => stripLast ']' rest
  | _ => none

def readKind (cs : List Char) : Except Problem FieldKind :=
  match String.ofList cs with
  | "string" => .ok (.primitive .text)
  | "bool" => .ok (.primitive .flag)
  | "int" => .ok (.primitive .integer)
  | name =>
    match bracketed? cs with
    | some inner =>
      if isIdentifier inner then .ok (.list (String.ofList inner)) else .error (.invalidType name)
    | none => if isIdentifier cs then .ok (.single name) else .error (.invalidType name)

/-- A trimmed field line. One comma at its end is allowed. -/
def readField (line : List Char) (doc : Option String) : Except Problem FieldDecl :=
  match cutAt ':' ((stripLast ',' line).getD line) with
  | none => .error .missingColon
  | some (before, after) =>
    let name := trim before
    if !isIdentifier name then .error (.invalidFieldName (String.ofList name))
    else match words after with
      | [] => .error (.missingType (String.ofList name))
      | type :: attributes => do
        let bare := stripLast '?' type
        let kind ← readKind (bare.getD type)
        let policy ← readAttributes [] { optional := bare.isSome } attributes
        .ok { name := String.ofList name, kind, policy, doc }

end NodeModel.Declaration
