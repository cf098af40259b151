/-! Node declarations as an author writes them: classes with one superclass at most, typed fields,
and the policies and indicators attached to them. -/
namespace NodeModel

inductive Primitive where
  | text
  | flag
  | integer
  /-- A type owned elsewhere, known here by its name alone. -/
  | external (name : String)
deriving DecidableEq, Repr

inductive FieldKind where
  /-- One node of a class. -/
  | single (target : String)
  /-- Several nodes of a class, in order. -/
  | list (target : String)
  | primitive (value : Primitive)
deriving DecidableEq, Repr

namespace FieldKind

/-- The class a reference points to. -/
def target? : FieldKind → Option String
  | .single target | .list target => some target
  | .primitive _ => none

def isReference (kind : FieldKind) : Bool := kind.target?.isSome

def isList : FieldKind → Bool
  | .list _ => true
  | _ => false

def external? : FieldKind → Option String
  | .primitive (.external name) => some name
  | _ => none

def label : FieldKind → String
  | .single target => target
  | .list target => s!"[{target}]"
  | .primitive .text => "string"
  | .primitive .flag => "bool"
  | .primitive .integer => "int"
  | .primitive (.external name) => s!"extern {name}"

end FieldKind

/-- What a clone does with the contents of a field. -/
inductive CopyMode where
  | deep
  | share
  | reset
  | external
deriving DecidableEq, Repr

def CopyMode.label : CopyMode → String
  | .deep => "deep"
  | .share => "share"
  | .reset => "reset"
  | .external => "external_copy"

structure FieldPolicy where
  optional : Bool := false
  /-- Given to the constructor; otherwise assigned later, at most once. -/
  bound : Bool := true
  visitable : Bool := true
  copyMode : Option CopyMode := none
deriving DecidableEq, Repr

structure FieldDecl where
  name : String
  kind : FieldKind
  policy : FieldPolicy := {}
  doc : Option String := none
deriving DecidableEq, Repr

/-- The fields that hold a name and say whether it is to be mangled. -/
structure ManglePair where
  nameField : String
  flagField : String
deriving DecidableEq, Repr

structure Indicators where
  generic : Bool := false
  unique : Bool := false
  mangle : Option ManglePair := none
deriving DecidableEq, Repr

def Indicators.isEmpty (indicators : Indicators) : Bool := indicators == {}

structure NodeDecl where
  name : String
  superclass : Option String := none
  fields : List FieldDecl := []
  indicators : Indicators := {}
  doc : Option String := none
deriving DecidableEq, Repr

/-- The first of its own fields with that name. -/
def NodeDecl.ownField? (node : NodeDecl) (name : String) : Option FieldDecl :=
  node.fields.find? (·.name == name)

structure Schema where
  /-- A class outside the schema that top-level classes may extend. -/
  root : Option String := none
  externals : List String := []
  nodes : List NodeDecl := []
deriving DecidableEq, Repr

namespace Schema

/-- The first class declared with that name. -/
def node? (schema : Schema) (name : String) : Option NodeDecl :=
  schema.nodes.find? (·.name == name)

def declares (schema : Schema) (name : String) : Bool := (schema.node? name).isSome

def isRootName (schema : Schema) (name : String) : Bool := schema.root == some name

end Schema

end NodeModel
