import NodeModel.Text.Quoted

/-! Why a JSON text is refused. -/
namespace NodeModel.Json

/-- What stands where something else was expected. -/
inductive Found where
  | null
  | boolean (value : Bool)
  | integer (value : Int)
  | real (text : String)
  | text (value : String)
  | sequence
  | map
  | unitVariant
deriving DecidableEq, Repr

def Found.message : Found → String
  | .null => "null"
  | .boolean true => "boolean `true`"
  | .boolean false => "boolean `false`"
  | .integer value => s!"integer `{value}`"
  | .real digits => s!"floating point `{digits}`"
  | .text value => "string " ++ Text.quoted value
  | .sequence => "sequence"
  | .map => "map"
  | .unitVariant => "unit variant"

/-- Well-formed text of the wrong shape. -/
inductive Mismatch where
  | type (found : Found) (expected : String)
  | value (found : Found) (expected : String)
  | variant (name : String) (known : List String)
  | missing (member : String)
  | duplicate (member : String)
  | length (count : Nat) (expected : String)
deriving DecidableEq, Repr

private def namesInQuotes (names : List String) : String :=
  ", ".intercalate (names.map fun name => s!"`{name}`")

def Mismatch.message : Mismatch → String
  | .type found expected => s!"invalid type: {found.message}, expected {expected}"
  | .value found expected => s!"invalid value: {found.message}, expected {expected}"
  | .variant name known => s!"unknown variant `{name}`, expected one of {namesInQuotes known}"
  | .missing name => s!"missing field `{name}`"
  | .duplicate name => s!"duplicate field `{name}`"
  | .length count expected => s!"invalid length {count}, expected {expected}"

/-- The first problem of a text that is read from left to right. -/
inductive Fault where
  | endOfText
  | malformed
  | shape (mismatch : Mismatch)
deriving DecidableEq, Repr

def Fault.message : Fault → String
  | .endOfText => "unexpected end of input"
  | .malformed => "malformed text"
  | .shape mismatch => mismatch.message

/-- Reads a value from the front of a text and gives what follows it. -/
abbrev Reader (α : Type) := List Char → Except Fault (α × List Char)

end NodeModel.Json
