import NodeModel.Hierarchy.Defect

/-! The class hierarchy of a schema. Its checks run in stages, and the first stage with defects
ends them: names, superclasses, roots, cycles. -/
namespace NodeModel

namespace Schema

/-- The declared class that `node` extends. An external root is not one. -/
def parent? (schema : Schema) (node : NodeDecl) : Option NodeDecl :=
  node.superclass.bind schema.node?

/-- The classes without a declared superclass. -/
def topLevel (schema : Schema) : List NodeDecl :=
  schema.nodes.filter fun node => (schema.parent? node).isNone

/-- The classes that name `cls` as their superclass. -/
def extending (schema : Schema) (cls : String) : List NodeDecl :=
  schema.nodes.filter (·.superclass == some cls)

/-- Every class whose name an earlier one bears, once for each such class. -/
def duplicates (seen : List String) : List NodeDecl → List Defect
  | [] => []
  | node :: rest =>
    if seen.contains node.name then .duplicateClass node.name :: duplicates seen rest
    else duplicates (node.name :: seen) rest

def danglingSuperclass? (schema : Schema) (node : NodeDecl) : Option Defect :=
  node.superclass.bind fun superclass =>
    if schema.declares superclass || schema.isRootName superclass then none
    else some (.unresolvedSuperclass node.name superclass)

/-- Without an external root at most one class may stand alone. -/
def extraRoots (schema : Schema) : List Defect :=
  let roots := schema.topLevel
  if schema.root.isNone && 1 < roots.length then [.multipleRoots (roots.map (·.name))] else []

/-- The classes on `stack`, each followed by its subclasses, in `fuel` steps at most. -/
def unstack (schema : Schema) : Nat → List NodeDecl → List NodeDecl
  | 0, _ => []
  | _ + 1, [] => []
  | fuel + 1, node :: stack => node :: schema.unstack fuel (schema.extending node.name ++ stack)

/-- Every class that is reached from a top-level one, before its subclasses, siblings in
declaration order. -/
def preorder (schema : Schema) : List NodeDecl :=
  schema.unstack schema.nodes.length schema.topLevel

/-- Follows superclasses from `node` until a class of `path` comes again; the result runs from
that class to the last one before it. `path` holds the classes passed, latest first. -/
def climb (schema : Schema) : Nat → List NodeDecl → NodeDecl → Option (List NodeDecl)
  | 0, _, _ => none
  | fuel + 1, path, node =>
    if path.any (·.name == node.name) then
      some (node :: (path.takeWhile (·.name != node.name)).reverse)
    else (schema.parent? node).bind (schema.climb fuel (node :: path))

/-- Turns a cycle so that its first-declared member leads. -/
def turn (schema : Schema) (cycle : List String) : List String :=
  match schema.nodes.find? fun node => cycle.contains node.name with
  | none => cycle
  | some first => cycle.dropWhile (· != first.name) ++ cycle.takeWhile (· != first.name)

/-- The superclass cycle that `node` lies on or below. -/
def cycleAbove? (schema : Schema) (node : NodeDecl) : Option (List String) :=
  (schema.climb (schema.nodes.length + 1) [] node).map fun cycle =>
    schema.turn (cycle.map (·.name))

/-- The cycles above the given classes, each once. -/
def cycles (schema : Schema) (reported : List String) : List NodeDecl → List (List String)
  | [] => []
  | node :: rest =>
    match schema.cycleAbove? node with
    | none => schema.cycles reported rest
    | some cycle =>
      if cycle.any reported.contains then schema.cycles reported rest
      else cycle :: schema.cycles (reported ++ cycle) rest

end Schema

/-- A schema whose classes form a forest, and their pre-order. -/
structure Hierarchy where
  schema : Schema
  order : List NodeDecl
deriving Repr

namespace Hierarchy

def build (schema : Schema) : Except (List Defect) Hierarchy := do
  let duplicates := Schema.duplicates [] schema.nodes
  if !duplicates.isEmpty then throw duplicates
  let dangling := schema.nodes.filterMap schema.danglingSuperclass?
  if !dangling.isEmpty then throw dangling
  let extra := schema.extraRoots
  if !extra.isEmpty then throw extra
  let order := schema.preorder
  if order.length < schema.nodes.length then
    let unreached := schema.nodes.filter fun node => !order.any (·.name == node.name)
    throw ((schema.cycles [] unreached).map .cycle)
  return { schema, order }

def contains (hierarchy : Hierarchy) (name : String) : Bool := hierarchy.schema.declares name

/-- The class and its superclasses, upwards. -/
def lineage (schema : Schema) : Nat → NodeDecl → List NodeDecl
  | 0, node => [node]
  | fuel + 1, node =>
    node :: match schema.parent? node with
      | none => []
      | some parent => lineage schema fuel parent

/-- The superclasses of a class from the top down to the class itself. -/
def chain (hierarchy : Hierarchy) (node : NodeDecl) : List NodeDecl :=
  (lineage hierarchy.schema hierarchy.schema.nodes.length node).reverse

def chainOf? (hierarchy : Hierarchy) (name : String) : Option (List String) :=
  (hierarchy.schema.node? name).map fun node => (hierarchy.chain node).map (·.name)

/-- The direct subclasses of a declared class. -/
def subclasses (hierarchy : Hierarchy) (name : String) : List String :=
  if hierarchy.contains name then (hierarchy.schema.extending name).map (·.name) else []

end Hierarchy

end NodeModel
