import NodeModel.Schema.Basic

/-! The resolved model: for every class its chain, flattened fields, constructor, traversal and
clone rules. A model may also come from outside, so nothing here relies on these lists agreeing. -/
namespace NodeModel.Model

structure Policy where
  optional : Bool
  bound : Bool
  visitable : Bool
  copyMode : CopyMode
deriving DecidableEq, Repr

/-- What a deferred field holds before it is assigned. -/
inductive Default where
  | absent
  | isFalse
  | zero
  | emptyText
  | emptyList
  | unset
deriving DecidableEq, Repr

structure Field where
  name : String
  kind : FieldKind
  policy : Policy
  declaredIn : String
  /-- Only deferred fields have one. -/
  default : Option Default := none
  doc : Option String := none
deriving DecidableEq, Repr

structure Param where
  field : String
  optional : Bool := false
deriving DecidableEq, Repr

structure Slot where
  field : String
  list : Bool := false
deriving DecidableEq, Repr

inductive CloneStep where
  | copyValue
  | cloneChild
  | cloneList
  | shareReference
  | reset
  | externalCopy (type : String)
deriving DecidableEq, Repr

structure CloneRule where
  field : String
  step : CloneStep
deriving DecidableEq, Repr

structure Mangle where
  nameField : String
  flagField : String
  nameOptional : Bool := false
  flagOptional : Bool := false
deriving DecidableEq, Repr

structure Indicators where
  generic : Bool := false
  unique : Bool := false
  mangle : Option Mangle := none
deriving DecidableEq, Repr

structure Class where
  name : String
  superclass : Option String := none
  /-- From the top down to the class itself. -/
  chain : List String
  subclasses : List String := []
  fields : List Field
  params : List Param
  traversal : List Slot
  cloneRules : List CloneRule
  indicators : Indicators := {}
  doc : Option String := none
deriving DecidableEq, Repr

namespace Class

def isLeaf (cls : Class) : Bool := cls.subclasses.isEmpty

/-- The first field of that name. -/
def field? (cls : Class) (name : String) : Option Field := cls.fields.find? (·.name == name)

def position? (cls : Class) (name : String) : Option Nat := cls.fields.findIdx? (·.name == name)

def ownFields (cls : Class) : List Field := cls.fields.filter (·.declaredIn == cls.name)

def deferredFields (cls : Class) : List Field := cls.fields.filter (!·.policy.bound)

/-- A class counts as a subclass of itself. -/
def isSubclassOf (cls : Class) (ancestor : String) : Bool := cls.chain.contains ancestor

end Class

end NodeModel.Model

namespace NodeModel

structure Model where
  root : Option String := none
  externals : List String := []
  classes : List Model.Class
deriving DecidableEq, Repr

namespace Model

/-- The first class of that name. -/
def class? (model : Model) (name : String) : Option Class := model.classes.find? (·.name == name)

def leaves (model : Model) : List Class := model.classes.filter (·.isLeaf)

def categories (model : Model) : List Class := model.classes.filter (!·.isLeaf)

def leavesUnder (model : Model) (name : String) : List Class :=
  model.leaves.filter (·.isSubclassOf name)

end Model

end NodeModel
