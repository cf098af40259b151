import NodeModel.Arena.Value

/-! An arena of nodes that are checked against a model. Nodes are only ever added. -/
namespace NodeModel

namespace Arena

structure Node where
  cls : Model.Class
  /-- One slot per flattened field, empty while the field is absent or unset. -/
  slots : List (Option Value)
  /-- Whether a deferred field has been given a value. -/
  assigned : List Bool
deriving DecidableEq, Repr

def Node.slot (node : Node) (position : Nat) : Option Value := node.slots[position]?.join

def Node.isAssigned (node : Node) (position : Nat) : Bool := node.assigned[position]?.getD false

/-- A node with the given contents at one position, which is assigned thereby. -/
def Node.assign (node : Node) (position : Nat) (value : Value) : Node :=
  { node with
    slots := node.slots.set position (some value)
    assigned := node.assigned.set position true }

/-- A field of a class and its position in the flattened list. -/
def locate (cls : Model.Class) (name : String) : Except Fault (Nat × Model.Field) :=
  match cls.position? name, cls.field? name with
  | some position, some field => .ok (position, field)
  | _, _ => .error (.unknownField cls.name name)

/-- What a field holds before anything is assigned to it. -/
def initialSlot (field : Model.Field) : Option Value := field.default.bind Value.ofDefault

end Arena

structure Arena where
  model : Model
  nodes : Array Arena.Node := #[]
deriving Repr

namespace Arena

def empty (model : Model) : Arena := { model }

def size (arena : Arena) : Nat := arena.nodes.size

def isEmpty (arena : Arena) : Bool := arena.nodes.isEmpty

def node (arena : Arena) (id : NodeId) : Except Fault Node :=
  match arena.nodes[id]? with
  | some node => .ok node
  | none => .error (.unknownNode id)

def classOf (arena : Arena) (id : NodeId) : Except Fault Model.Class := do
  return (← arena.node id).cls

/-- A value fits a field if it has the field's shape and refers to existing nodes of the field's
class only. -/
def checkValue (arena : Arena) (cls : Model.Class) (field : Model.Field) (value : Value) :
    Except Fault Unit := do
  let mismatch : Fault := .kindMismatch cls.name field.name field.kind value
  if !value.hasShape field.kind then throw mismatch
  match field.kind.target? with
  | none => return
  | some target =>
    value.nodeIds.forM fun id => do
      if !(← arena.classOf id).isSubclassOf target then throw mismatch

/-- Fills the slots of the constructor's parameters in order. -/
def fillSlots (arena : Arena) (cls : Model.Class) :
    List Model.Param → List (Option Value) → List (Option Value) →
    Except Fault (List (Option Value))
  | param :: params, argument :: arguments, slots => do
    let (position, field) ← locate cls param.field
    match argument with
    | none =>
      if param.optional then arena.fillSlots cls params arguments slots
      else throw (.missingArgument cls.name field.name)
    | some value =>
      arena.checkValue cls field value
      arena.fillSlots cls params arguments (slots.set position (some value))
  | _, _, slots => return slots

/-- Adds a node made from its constructor arguments, in order. -/
def construct (arena : Arena) (name : String) (arguments : List (Option Value)) :
    Except Fault (NodeId × Arena) := do
  match arena.model.class? name with
  | none => throw (.unknownClass name)
  | some cls =>
    if arguments.length != cls.params.length then
      throw (.arity cls.name cls.params.length arguments.length)
    let slots ← arena.fillSlots cls cls.params arguments (cls.fields.map initialSlot)
    let node : Node := ⟨cls, slots, List.replicate slots.length false⟩
    return (arena.size, { arena with nodes := arena.nodes.push node })

/-- Assigns a deferred field, which can be done once. -/
def set (arena : Arena) (id : NodeId) (name : String) (value : Value) : Except Fault Arena := do
  let node ← arena.node id
  let (position, field) ← locate node.cls name
  if field.policy.bound then throw (.notDeferred node.cls.name name)
  if node.isAssigned position then throw (.alreadyAssigned node.cls.name name)
  arena.checkValue node.cls field value
  return { arena with nodes := arena.nodes.modify id (·.assign position value) }

/-- The contents of a field, if it has any. -/
def get (arena : Arena) (id : NodeId) (name : String) : Except Fault (Option Value) := do
  let node ← arena.node id
  let (position, _) ← locate node.cls name
  return node.slot position

/-- Every field of a node with its contents, in flattened order. -/
def contents (arena : Arena) (id : NodeId) : Except Fault (List (String × Option Value)) := do
  (← arena.classOf id).fields.mapM fun field => do
    return (field.name, ← arena.get id field.name)

/-- The children of a node along the traversal list. -/
def children (arena : Arena) (id : NodeId) : Except Fault (List NodeId) := do
  let node ← arena.node id
  let edges ← node.cls.traversal.mapM fun slot => do
    let (position, _) ← locate node.cls slot.field
    return ((node.slot position).map Value.nodeIds).getD []
  return edges.flatten

/-- The required fields of a node that have no contents. -/
def missingFields (arena : Arena) (id : NodeId) : Except Fault (List String) := do
  let node ← arena.node id
  return ((node.cls.fields.zip node.slots).filter fun (field, slot) =>
    !field.policy.optional && slot.isNone).map (·.1.name)

end Arena

end NodeModel
