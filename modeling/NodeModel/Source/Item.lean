import NodeModel.Model.Basic
import NodeModel.Source.Expr

/-! The pieces of the emitted source as data: how a field is stored, initialised, read, assigned,
visited and cloned. -/
namespace NodeModel.Source

/-- How a field is held inside its struct. -/
inductive Storage where
  | plain
  /-- May be empty: the field is optional or reset on copy. -/
  | option
  /-- Filled at most once: the field is deferred. -/
  | cell
deriving DecidableEq, Repr

def Storage.of (field : Model.Field) : Storage :=
  if !field.policy.bound then .cell
  else if field.policy.optional || field.policy.copyMode == .reset then .option
  else .plain

/-- An edge to a node that does not keep it alive. -/
def isWeak (field : Model.Field) : Bool :=
  field.kind.isReference && field.policy.copyMode == .share

/-- The type a reference points to: the struct of a leaf, or the enum of all leaves below a
category. -/
inductive Target where
  | struct (cls : String)
  | family (cls : String)
deriving DecidableEq, Repr

def Target.of (model : Model) (cls : String) : Target :=
  match model.class? cls with
  | some found => if found.isLeaf then .struct cls else .family cls
  | none => .struct cls

/-- The type of a stored value, before it is wrapped by its storage. -/
inductive ValueType where
  | text
  | flag
  | number
  | external (name : String)
  | edge (weak : Bool) (target : Target)
  | edges (weak : Bool) (target : Target)
deriving DecidableEq, Repr

def ValueType.of (model : Model) (field : Model.Field) : ValueType :=
  match field.kind with
  | .primitive .text => .text
  | .primitive .flag => .flag
  | .primitive .integer => .number
  | .primitive (.external name) => .external name
  | .single cls => .edge (isWeak field) (.of model cls)
  | .list cls => .edges (isWeak field) (.of model cls)

structure StructField where
  name : String
  storage : Storage
  type : ValueType
  doc : Option String
deriving DecidableEq, Repr

structure Param where
  field : String
  type : ValueType
  optional : Bool
deriving DecidableEq, Repr

/-- The value a field starts with in the constructor. -/
def initialExpr (field : Model.Field) : Expr :=
  let given := Expr.param field.name
  match Storage.of field with
  | .cell => .emptyCell
  | .option => if field.policy.optional then given else .apply .present given
  | .plain => given

/-- How a deferred field is read. -/
inductive Getter where
  /-- The node behind a weak edge, if it is still alive. -/
  | upgraded (target : Target)
  /-- Scalars and text: with a fallback the empty value stands in for a missing one. -/
  | text (fallback : Bool)
  | flag (fallback : Bool)
  | number (fallback : Bool)
  /-- A list, where the empty one stands in for a missing one. -/
  | slice (weak : Bool) (target : Target)
  | borrowed (type : ValueType)
deriving DecidableEq, Repr

def Getter.of (model : Model) (field : Model.Field) : Getter :=
  let required := !field.policy.optional
  match field.kind with
  | .single cls =>
    if isWeak field then .upgraded (.of model cls) else .borrowed (.of model field)
  | .list cls =>
    if required then .slice (isWeak field) (.of model cls) else .borrowed (.of model field)
  | .primitive .text => .text required
  | .primitive .flag => .flag required
  | .primitive .integer => .number required
  | .primitive (.external _) => .borrowed (.of model field)

/-- What the getter of a field returns. -/
def Getter.expr (field : String) (getter : Getter) : Expr :=
  let held := (Expr.member field).call .get
  match getter with
  | .upgraded _ => held.call .upgrade
  | .text false => held.call .asStr
  | .text true => (held.call .asStr).unwrapOr .emptyText
  | .flag false => held.call .copied
  | .flag true => (held.call .copied).unwrapOr .isFalse
  | .number false => held.call .copied
  | .number true => (held.call .copied).unwrapOr .zero
  | .slice _ _ => (held.call .asSlice).unwrapOr .emptySlice
  | .borrowed _ => held

/-- How a deferred field is assigned. -/
inductive Setter where
  /-- A node is given, a weak edge to it is stored. -/
  | downgraded (target : Target)
  | direct (type : ValueType)
deriving DecidableEq, Repr

def Setter.of (model : Model) (field : Model.Field) : Setter :=
  match field.kind with
  | .single cls =>
    if isWeak field then .downgraded (.of model cls) else .direct (.of model field)
  | _ => .direct (.of model field)

/-- What the setter puts into the cell. -/
def Setter.expr : Setter → Expr
  | .downgraded _ => .apply .downgrade (.variable "value")
  | .direct _ => .variable "value"

/-- Methods that every struct may have. -/
def methodNames : List String :=
  ["new", "children", "structural_clone", "mangle_name", "mangle_applies"]

/-- The getter's name, kept apart from the methods of the struct. -/
def accessorName (field : Model.Field) : String :=
  let ident := fieldIdent field.name
  if methodNames.contains (bare ident) then bare ident ++ "_field" else ident

structure Accessor where
  field : String
  getterName : String
  setterName : String
  getter : Getter
  setter : Setter
  doc : Option String
deriving DecidableEq, Repr

def Accessor.of (model : Model) (field : Model.Field) : Accessor where
  field := field.name
  getterName := accessorName field
  setterName := "set_" ++ bare (fieldIdent field.name)
  getter := .of model field
  setter := .of model field
  doc := field.doc

/-- A loop over the children in one field. -/
structure ChildLoop where
  source : Expr
  weak : Bool
deriving DecidableEq, Repr

def childSource (field : Model.Field) : Expr :=
  let this := Expr.member field.name
  match Storage.of field, field.kind.isList with
  | .plain, false => .apply .once this
  | .option, false => this.call .iter
  | .cell, false => (this.call .get).call .intoIter
  | .plain, true => this.call .iter
  | .option, true => (this.call .iter).call .flatten
  | .cell, true => ((this.call .get).call .intoIter).call .flatten

def ChildLoop.of (field : Model.Field) : ChildLoop := ⟨childSource field, isWeak field⟩

def freshChild (child : Expr) : Expr := .apply .shared (child.call .structuralClone)

def freshChildren (children : Expr) : Expr :=
  ((children.call .iter).map "c" (freshChild (.variable "c"))).call .collect

/-- The value a field gets in a clone. -/
def cloneExpr (field : Model.Field) (step : Model.CloneStep) : Expr :=
  let this := Expr.member field.name
  match step with
  | .copyValue | .shareReference => this.call .clone
  | .reset =>
    match Storage.of field with
    | .cell => .emptyCell
    | _ => .absent
  | .cloneChild =>
    match Storage.of field with
    | .option => (this.call .asRef).map "c" (freshChild (.variable "c"))
    | _ => freshChild this
  | .cloneList =>
    match Storage.of field with
    | .option => (this.call .asRef).map "l" (freshChildren (.variable "l"))
    | _ => freshChildren this
  | .externalCopy type =>
    let copy := Expr.apply .shared (.apply (.externalCopy type) (.variable "c"))
    match Storage.of field with
    | .plain => .block "c" this copy
    | .option => (this.call .asRef).map "c" copy
    | .cell => .mapCell this "c" copy

structure CloneEntry where
  field : String
  expr : Expr
deriving DecidableEq, Repr

/-- How a text or flag is read as a value that may be missing. -/
inductive OptionalRead where
  | plain (text : Bool)
  | option (text : Bool)
  | cell (text : Bool)
  | accessor (name : String)
deriving DecidableEq, Repr

def OptionalRead.of (field : Model.Field) : OptionalRead :=
  let text := field.kind == .primitive .text
  match Storage.of field with
  | .plain => .plain text
  | .option => .option text
  | .cell => if field.policy.optional then .cell text else .accessor (accessorName field)

structure MangleItem where
  nameField : String
  flagField : String
  nameIdent : String
  flagIdent : String
  readName : OptionalRead
  readFlag : OptionalRead
deriving DecidableEq, Repr

/-- A struct and its methods. -/
structure ClassItem where
  name : String
  doc : Option String
  generic : Bool
  unique : Bool
  fields : List StructField
  params : List Param
  initials : List (String × Expr)
  accessors : List Accessor
  children : List ChildLoop
  clones : List CloneEntry
  mangle : Option MangleItem
  leaf : Bool
deriving DecidableEq, Repr

/-- Parameters, children and clones follow the lists of the class and pass over names that no
field bears. -/
def ClassItem.of (model : Model) (cls : Model.Class) : ClassItem where
  name := cls.name
  doc := cls.doc
  generic := cls.indicators.generic
  unique := cls.indicators.unique
  fields := cls.fields.map fun field =>
    ⟨field.name, .of field, .of model field, field.doc⟩
  params := (cls.params.filterMap fun param => cls.field? param.field).map fun field =>
    ⟨field.name, .of model field, field.policy.optional⟩
  initials := cls.fields.map fun field => (field.name, initialExpr field)
  accessors := cls.deferredFields.map (.of model)
  children := (cls.traversal.filterMap fun slot => cls.field? slot.field).map .of
  clones := cls.cloneRules.filterMap fun rule =>
    (cls.field? rule.field).map fun field => ⟨field.name, cloneExpr field rule.step⟩
  mangle := do
    let mangle ← cls.indicators.mangle
    let name ← cls.field? mangle.nameField
    let flag ← cls.field? mangle.flagField
    return ⟨mangle.nameField, mangle.flagField, fieldIdent name.name, fieldIdent flag.name,
      .of name, .of flag⟩
  leaf := cls.isLeaf

/-- The enum of all leaves below a category. -/
structure FamilyItem where
  cls : String
  leaves : List String
deriving DecidableEq, Repr

def FamilyItem.of (model : Model) (cls : Model.Class) : FamilyItem :=
  ⟨cls.name, (model.leavesUnder cls.name).map (·.name)⟩

/-- What the fields of a model need from outside their structs. -/
structure Needs where
  shared : Bool
  weak : Bool
  cell : Bool
  externalCopy : Bool
  mappedCell : Bool
deriving DecidableEq, Repr

def Needs.of (model : Model) : Needs :=
  let fields := model.classes.flatMap (·.fields)
  let copied (field : Model.Field) : Bool := field.policy.copyMode == .external
  { shared := fields.any fun field => field.kind.isReference || field.kind.external?.isSome
    weak := fields.any isWeak
    cell := fields.any (!·.policy.bound)
    externalCopy := fields.any copied
    mappedCell := fields.any fun field => copied field && Storage.of field == .cell }

/-- The emitted source file. -/
structure SourceFile where
  needs : Needs
  externals : List String
  leaves : List String
  classes : List ClassItem
  families : List FamilyItem
deriving DecidableEq, Repr

def SourceFile.of (model : Model) : SourceFile where
  needs := .of model
  externals := model.externals
  leaves := model.leaves.map (·.name)
  classes := model.classes.map (.of model)
  families := model.categories.map (.of model)

end NodeModel.Source
