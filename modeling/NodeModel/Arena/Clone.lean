import NodeModel.Arena.Basic

/-! Structural clones and structural equality. Owned children are cloned before the node that owns
them and compared in turn; every other edge is copied as it is and compared by its value. -/
namespace NodeModel.Arena

/-- What has been done so far: the nodes of the grown arena, and the external values that were
handed to the copier, in order. -/
structure Progress where
  nodes : Array Node
  copied : List ExternalRef := []
deriving Repr

/-- Copies an external value. The outcome may depend on the values handed over before it. -/
abbrev Copier := List ExternalRef → ExternalRef → ExternalRef

/-- Nodes that were added before a fault stay. -/
abbrev Cloning := ExceptT Fault (StateM Progress)

/-- The new contents of one slot. `again` clones an owned child. -/
def cloneSlot (copier : Copier) (again : NodeId → Cloning NodeId)
    (field : Model.Field) (step : Model.CloneStep) (slot : Option Value) :
    Cloning (Option Value) :=
  match step, slot with
  | .reset, _ => return initialSlot field
  | .cloneChild, some (.node child) => return some (.node (← again child))
  | .cloneList, some (.list children) => return some (.list (← children.mapM again))
  | .externalCopy _, some (.external ref) =>
    modifyGet fun progress => (some (.external (copier progress.copied ref)),
      { progress with copied := progress.copied ++ [ref] })
  | _, slot => return slot

/-- Slots follow the clone rules in order; a reset field can be assigned again. -/
def cloneSlots (copier : Copier) (again : NodeId → Cloning NodeId)
    (source : Node) : List Model.CloneRule → List Bool → Cloning (List (Option Value) × List Bool)
  | [], assigned => return ([], assigned)
  | rule :: rules, assigned => do
    let (position, field) ← liftM (locate source.cls rule.field)
    let slot ← cloneSlot copier again field rule.step (source.slot position)
    let assigned := if rule.step = .reset then assigned.set position false else assigned
    let (slots, assigned) ← cloneSlots copier again source rules assigned
    return (slot :: slots, assigned)

def existing (id : NodeId) : Cloning Node := do
  match (← getThe Progress).nodes[id]? with
  | some node => return node
  | none => throw (.unknownNode id)

def addNode (node : Node) : Cloning NodeId :=
  modifyGet fun progress =>
    (progress.nodes.size, { progress with nodes := progress.nodes.push node })

/-- Clones a node. Owned edges lead to distinct nodes unless they run in a circle, so `fuel` need
not exceed the number of nodes. -/
def cloneNode (copier : Copier) : Nat → NodeId → Cloning NodeId
  | 0, id => throw (.endlessOwnership id)
  | fuel + 1, id => do
    let source ← existing id
    let (slots, assigned) ←
      cloneSlots copier (cloneNode copier fuel) source source.cls.cloneRules source.assigned
    addNode ⟨source.cls, slots, assigned⟩

/-- The outcome of a clone: the new node or a fault, the arena after it, and the external values
handed to the copier. -/
structure Cloned where
  result : Except Fault NodeId
  arena : Arena
  copied : List ExternalRef

def clone (arena : Arena) (copier : Copier) (id : NodeId) : Cloned :=
  let (result, progress) := (cloneNode copier (arena.size + 1) id).run.run ⟨arena.nodes, []⟩
  ⟨result, { arena with nodes := progress.nodes }, progress.copied⟩

/-- Compares two slots under a clone step. `again` compares owned children. -/
def equalSlots (again : NodeId → NodeId → Except Fault Bool) (step : Model.CloneStep)
    (left right : Option Value) : Except Fault Bool :=
  match step, left, right with
  | .cloneChild, some (.node x), some (.node y) => again x y
  | .cloneList, some (.list xs), some (.list ys) =>
    if xs.length == ys.length then (xs.zip ys).allM fun (x, y) => again x y else return false
  | _, _, _ => return left == right

/-- Compares two nodes by the clone rules of the first, up to the first difference. -/
def equalNodes (arena : Arena) : Nat → NodeId → NodeId → Except Fault Bool
  | 0, left, _ => .error (.endlessOwnership left)
  | fuel + 1, left, right => do
    let a ← arena.node left
    let b ← arena.node right
    if a.cls.name != b.cls.name then return false
    a.cls.cloneRules.allM fun rule => do
      let (position, _) ← locate a.cls rule.field
      equalSlots (arena.equalNodes fuel) rule.step (a.slot position) (b.slot position)

def structurallyEqual (arena : Arena) (left right : NodeId) : Except Fault Bool :=
  arena.equalNodes (arena.size + 1) left right

end NodeModel.Arena
