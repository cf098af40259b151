import NodeModel.Hierarchy.Basic

/-! Flattened field lists: the fields of the superclass, then those of the class itself. -/
namespace NodeModel

structure FlatField where
  decl : FieldDecl
  declaredIn : String
deriving DecidableEq, Repr

/-- The defect of `field`, declared in `cls` although `earlier` has its name. -/
def FlatField.clash (cls : String) (field : FieldDecl) (earlier : FlatField) : Defect :=
  let inherited := earlier.declaredIn != cls
  .redeclared cls field.name (if inherited then some earlier.declaredIn else none)
    (inherited && earlier.decl.kind == field.kind && earlier.decl.policy == field.policy)

/-- Appends the own fields of `cls`. A field whose name is taken is reported and left out. -/
def appendOwn (cls : String) : List FlatField → List FieldDecl → List FlatField × List Defect
  | fields, [] => (fields, [])
  | fields, field :: rest =>
    match fields.find? (·.decl.name == field.name) with
    | some earlier =>
      let (all, defects) := appendOwn cls fields rest
      (all, earlier.clash cls field :: defects)
    | none => appendOwn cls (fields ++ [⟨field, cls⟩]) rest

structure Layout where
  node : NodeDecl
  /-- From the top down to the class itself. -/
  chain : List NodeDecl
  subclasses : List String
  fields : List FlatField
deriving Repr

namespace Layout

def name (layout : Layout) : String := layout.node.name

def fieldNames (layout : Layout) : List String := layout.fields.map (·.decl.name)

end Layout

/-- The classes laid out so far, and the redeclarations met on the way. -/
structure Flattening where
  layouts : List Layout := []
  defects : List Defect := []
deriving Repr

/-- The fields of a class that has been laid out. -/
def Flattening.fieldsOf (done : Flattening) (cls : String) : List FlatField :=
  ((done.layouts.find? (·.name == cls)).map (·.fields)).getD []

namespace Hierarchy

/-- Lays out one more class, on top of what its superclass has. -/
def layOut (hierarchy : Hierarchy) (done : Flattening) (node : NodeDecl) : Flattening :=
  let inherited := ((hierarchy.schema.parent? node).map (done.fieldsOf ·.name)).getD []
  let (fields, defects) := appendOwn node.name inherited node.fields
  let layout : Layout :=
    { node, chain := hierarchy.chain node, subclasses := hierarchy.subclasses node.name, fields }
  { layouts := done.layouts ++ [layout], defects := done.defects ++ defects }

/-- One layout per class, in pre-order: a superclass is laid out before the classes below it. -/
def flattening (hierarchy : Hierarchy) : Flattening := hierarchy.order.foldl hierarchy.layOut {}

end Hierarchy

end NodeModel
