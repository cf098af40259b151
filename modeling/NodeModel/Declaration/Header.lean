import NodeModel.Declaration.Problem
import NodeModel.Text.Pieces

/-! Node headers: a name, a superclass, indicators and the opening brace. -/
namespace NodeModel.Declaration

open Text

/-- The two field names in parentheses after `#mangle`, and what follows them. -/
def readMangle (cs : List Char) : Except Problem (ManglePair × List Char) :=
  match cs with
  | '(' :: rest =>
    match cutAt ')' rest with
    | none => .error .malformedMangle
    | some (inner, after) =>
      match commaList inner with
      | [name, flag] =>
        if isIdentifier name && isIdentifier flag then
          .ok (⟨String.ofList name, String.ofList flag⟩, after)
        else .error .mangleFieldCount
      | _ => .error .mangleFieldCount
  | _ => .error .malformedMangle

/-- One indicator, whose `#` has been read. Its word ends at the first character that cannot be
part of a word. -/
def readIndicator (indicators : Indicators) (cs : List Char) :
    Except Problem (Indicators × List Char) :=
  let after := cs.dropWhile isWordChar
  match String.ofList (cs.takeWhile isWordChar) with
  | "generic" => .ok ({ indicators with generic := true }, after)
  | "unique" => .ok ({ indicators with unique := true }, after)
  | "mangle" => do
    let (pair, after) ← readMangle after
    .ok ({ indicators with mangle := some pair }, after)
  | word => .error (.unknownIndicator word)

/-- Each indicator takes up at least its `#`, so `fuel` need not exceed the length of the text. -/
def readIndicators : Nat → Indicators → List Char → Except Problem Indicators
  | 0, indicators, _ => .ok indicators
  | fuel + 1, indicators, cs =>
    match trimStart cs with
    | [] => .ok indicators
    | '#' :: rest => do
      let (indicators, after) ← readIndicator indicators rest
      readIndicators fuel indicators after
    | rest => .error (.strayHeaderText (String.ofList rest))

/-- A node whose fields are still to come, or one that is closed on its header line. -/
structure Header where
  node : NodeDecl
  closed : Bool
deriving DecidableEq, Repr

/-- What follows the opening brace: nothing, or the closing brace. -/
def readClosing (cs : List Char) : Except Problem Bool :=
  match trim cs with
  | [] => .ok false
  | ['\x7d'] => .ok true
  | _ => .error .fieldsOnHeaderLine

/-- Name and superclass, before any indicator. -/
def readNames (cs : List Char) : Except Problem (String × Option String) := do
  let (name, superclass) := match cutAt ':' cs with
    | some (before, after) => (trim before, some (trim after))
    | none => (cs, none)
  if !isIdentifier name then .error (.invalidNodeName (String.ofList name))
  else match superclass with
    | none => .ok (String.ofList name, none)
    | some superclass =>
      if isIdentifier superclass then .ok (String.ofList name, some (String.ofList superclass))
      else .error (.invalidSuperclass (String.ofList superclass))

/-- The text of a header after its keyword. -/
def readHeader (header : List Char) (doc : Option String) : Except Problem Header :=
  match cutAt '\x7b' header with
  | none => .error .missingBrace
  | some (before, after) => do
    let closed ← readClosing after
    let head := trim before
    let names := trim (head.takeWhile (· != '#'))
    let indicators := head.dropWhile (· != '#')
    let (name, superclass) ← readNames names
    let indicators ← readIndicators (indicators.length + 1) {} indicators
    .ok { node := { name, superclass, indicators, doc }, closed }

end NodeModel.Declaration
