import NodeModel.Model.Basic

/-! Contents of fields, and what can go wrong with them. -/
namespace NodeModel.Arena

/-- The position of a node in its arena. -/
abbrev NodeId := Nat

/-- A key into a table of the owner of `type`. -/
structure ExternalRef where
  type : String
  key : UInt64
deriving DecidableEq, Repr

inductive Value where
  | text (value : String)
  | flag (value : Bool)
  | integer (value : Int64)
  | node (id : NodeId)
  | list (ids : List NodeId)
  | external (ref : ExternalRef)
deriving DecidableEq, Repr

namespace Value

def label : Value → String
  | .text _ => "string"
  | .flag _ => "bool"
  | .integer _ => "int"
  | .node id => s!"node #{id}"
  | .list ids => s!"list of {ids.length}"
  | .external ref => s!"extern {ref.type}"

/-- The contents a default stands for; absent and unset fields are empty. -/
def ofDefault : Model.Default → Option Value
  | .absent | .unset => none
  | .isFalse => some (.flag false)
  | .zero => some (.integer 0)
  | .emptyText => some (.text "")
  | .emptyList => some (.list [])

/-- Whether a value has the shape of a kind. The classes of nodes are not looked at. -/
def hasShape : FieldKind → Value → Bool
  | .primitive .text, .text _ => true
  | .primitive .flag, .flag _ => true
  | .primitive .integer, .integer _ => true
  | .primitive (.external name), .external ref => name == ref.type
  | .single _, .node _ => true
  | .list _, .list _ => true
  | _, _ => false

/-- The nodes a value refers to. -/
def nodeIds : Value → List NodeId
  | .node id => [id]
  | .list ids => ids
  | _ => []

end Value

inductive Fault where
  | unknownClass (cls : String)
  | unknownNode (id : NodeId)
  | unknownField (cls field : String)
  | arity (cls : String) (expected found : Nat)
  | missingArgument (cls field : String)
  | kindMismatch (cls field : String) (expected : FieldKind) (found : Value)
  | notDeferred (cls field : String)
  | alreadyAssigned (cls field : String)
  /-- Owned edges lead from a node back to itself. -/
  | endlessOwnership (id : NodeId)
deriving DecidableEq, Repr

def Fault.message : Fault → String
  | .unknownClass cls => s!"unknown class '{cls}'"
  | .unknownNode id => s!"node #{id} does not exist"
  | .unknownField cls field => s!"class '{cls}' has no field '{field}'"
  | .arity cls expected found => s!"'{cls}' takes {expected} constructor argument(s), got {found}"
  | .missingArgument cls field => s!"required argument '{cls}.{field}' is missing"
  | .kindMismatch cls field expected found =>
    s!"field '{cls}.{field}' expects {expected.label}, got {found.label}"
  | .notDeferred cls field => s!"field '{cls}.{field}' is set by the constructor"
  | .alreadyAssigned cls field => s!"field '{cls}.{field}' is already assigned"
  | .endlessOwnership id => s!"node #{id} is owned by itself"

end NodeModel.Arena
