import NodeModel.Hierarchy.Layout
import NodeModel.Resolution.Copying
import NodeModel.Schema.External

/-! Resolution of a schema into a model, class by class in pre-order. A field is checked where it is
met first, which is the class that declares it; classes below take the outcome over. All defects of
a run are collected. -/
namespace NodeModel

inductive Warning.Reason where
  | sharedVisit
  | lostOnCopy
deriving DecidableEq, Repr

/-- A declaration that is accepted but may surprise. -/
structure Warning where
  cls : String
  field : String
  reason : Warning.Reason
deriving DecidableEq, Repr

def Warning.message (warning : Warning) : String :=
  match warning.reason with
  | .sharedVisit => "visitable shared reference: traversal may reach the referent more than once"
  | .lostOnCopy => "required constructor field is reset on copy; clones will lack it"

namespace FlatField

def copyMode (field : FlatField) : CopyMode :=
  field.decl.policy.copyMode.getD (.usual field.decl.kind field.decl.policy.bound)

def default? (field : FlatField) : Option Model.Default :=
  if field.decl.policy.bound then none
  else if field.decl.policy.optional then some .absent
  else some (.sentinel field.decl.kind)

def resolved (field : FlatField) : Model.Field where
  name := field.decl.name
  kind := field.decl.kind
  policy := ⟨field.decl.policy.optional, field.decl.policy.bound, field.decl.policy.visitable,
    field.copyMode⟩
  declaredIn := field.declaredIn
  default := field.default?
  doc := field.decl.doc

/-- The type name of a field that neither the schema nor the externals know. -/
def unknownType? (schema : Schema) (externals : NameSet) (field : FlatField) : Option String :=
  match field.decl.kind with
  | .single target | .list target => if schema.declares target then none else some target
  | .primitive (.external name) => if externals.contains name then none else some name
  | .primitive _ => none

def defects (schema : Schema) (externals : NameSet) (field : FlatField) : List Defect :=
  let type := (field.unknownType? schema externals).map
    (.unresolvedType field.declaredIn field.decl.name)
  let mode := (field.copyMode.defect? field.decl.kind field.decl.policy.bound).map
    (.copyMode field.declaredIn field.decl.name field.copyMode)
  type.toList ++ mode.toList

/-- The external type of a field, if it is known. -/
def confirmed? (externals : NameSet) (field : FlatField) : Option String :=
  field.decl.kind.external?.filter externals.contains

/-- No two kept fields of a schema have one key. -/
def key (field : FlatField) : String × String := (field.declaredIn, field.decl.name)

def warnings (field : FlatField) : List Warning :=
  let policy := field.decl.policy
  let warn (reason : Warning.Reason) : Warning := ⟨field.declaredIn, field.decl.name, reason⟩
  (if policy.visitable && field.decl.kind.isReference && field.copyMode == .share
    then [warn .sharedVisit] else []) ++
  (if policy.bound && !policy.optional && field.copyMode == .reset then [warn .lostOnCopy] else [])

end FlatField

/-- Whether the field of a mangle pair is optional, or why it cannot be bound. -/
def bindField (fields : List Model.Field) (name : String) (expected : Primitive) :
    Except MangleDefect Bool :=
  match fields.find? (·.name == name) with
  | none => .error .noSuchField
  | some field =>
    if field.kind = .primitive expected then .ok field.policy.optional
    else .error (.wrongKind (.primitive expected) field.kind)

/-- The binding of a pair among the fields of the class that declares it. Both fields are looked
up even if the first is not found. -/
def ManglePair.bind (pair : ManglePair) (cls : String) (fields : List Model.Field) :
    Option Model.Mangle × List Defect :=
  if pair.nameField = pair.flagField then
    (none, [.unboundMangle cls pair.nameField .sameField])
  else
    match bindField fields pair.nameField .text, bindField fields pair.flagField .flag with
    | .ok nameOptional, .ok flagOptional =>
      (some ⟨pair.nameField, pair.flagField, nameOptional, flagOptional⟩, [])
    | .error reason, .ok _ => (none, [.unboundMangle cls pair.nameField reason])
    | .ok _, .error reason => (none, [.unboundMangle cls pair.flagField reason])
    | .error first, .error second =>
      (none, [.unboundMangle cls pair.nameField first, .unboundMangle cls pair.flagField second])

/-- What has been found out on the way through the classes. -/
structure Findings where
  /-- The fields resolved so far, by their keys. -/
  fields : List ((String × String) × Model.Field) := []
  /-- The binding in effect for each class resolved so far. -/
  mangles : List (String × Option Model.Mangle) := []
  /-- The external types that some field uses. -/
  confirmed : NameSet := {}
  defects : List Defect := []
  warnings : List Warning := []

/-- Checks a field and keeps the outcome. -/
def Findings.record (schema : Schema) (externals : NameSet) (findings : Findings)
    (field : FlatField) : Findings :=
  { findings with
    fields := (field.key, field.resolved) :: findings.fields
    confirmed := findings.confirmed.insertMany (field.confirmed? externals).toList
    defects := findings.defects ++ field.defects schema externals
    warnings := findings.warnings ++ field.warnings }

/-- The binding in effect for the superclass of a class. -/
def Findings.inherited (findings : Findings) (node : NodeDecl) : Option Model.Mangle :=
  (node.superclass.bind fun superclass => findings.mangles.lookup superclass).join

/-- The record of a class, given its fields and the binding in effect for it. -/
def Layout.resolved (layout : Layout) (superclass : Option String) (fields : List Model.Field)
    (mangle : Option Model.Mangle) : Model.Class where
  name := layout.name
  superclass
  chain := layout.chain.map (·.name)
  subclasses := layout.subclasses
  fields
  params := (fields.filter (·.policy.bound)).map fun field => ⟨field.name, field.policy.optional⟩
  traversal := (fields.filter fun field => field.policy.visitable && field.kind.isReference).map
    fun field => ⟨field.name, field.kind.isList⟩
  cloneRules := fields.map fun field => ⟨field.name, .of field.kind field.policy.copyMode⟩
  indicators :=
    { generic := layout.chain.any (·.indicators.generic)
      unique := layout.chain.any (·.indicators.unique)
      mangle }
  doc := layout.node.doc

/-- The binding in effect for a class below `inherited`. A pair declared below another one is a
defect and has no effect. -/
def Layout.mangle (layout : Layout) (fields : List Model.Field) (inherited : Option Model.Mangle) :
    Option Model.Mangle × List Defect :=
  match layout.node.indicators.mangle with
  | none => (inherited, [])
  | some pair =>
    if layout.chain.dropLast.any (·.indicators.mangle.isSome) then
      (inherited, [.unboundMangle layout.name pair.nameField .alreadyDeclared])
    else pair.bind layout.name fields

namespace Hierarchy

/-- A field that has been checked already is not checked again. -/
def enterField (hierarchy : Hierarchy) (externals : NameSet) (field : FlatField) :
    StateM Findings Model.Field := do
  match (← get).fields.lookup field.key with
  | some resolved => return resolved
  | none =>
    modify (·.record hierarchy.schema externals field)
    return field.resolved

/-- The binding in effect for a class, given that of its superclass. -/
def enterPair (layout : Layout) (fields : List Model.Field) :
    StateM Findings (Option Model.Mangle) := do
  let findings ← get
  let (mangle, defects) := layout.mangle fields (findings.inherited layout.node)
  set { findings with
    mangles := (layout.name, mangle) :: findings.mangles
    defects := findings.defects ++ defects }
  return mangle

def enterClass (hierarchy : Hierarchy) (externals : NameSet) (layout : Layout) :
    StateM Findings Model.Class := do
  let fields ← layout.fields.mapM (hierarchy.enterField externals)
  let mangle ← enterPair layout fields
  return layout.resolved (layout.node.superclass.filter hierarchy.contains) fields mangle

end Hierarchy

/-- The outcome of a run: a model, or every defect found; the warnings stand beside either. -/
structure Resolution where
  outcome : Except (List Defect) Model
  warnings : List Warning

namespace Schema

/-- Resolves a schema against the external types that are known. -/
def resolution (schema : Schema) (externals : NameSet) : Resolution :=
  match Hierarchy.build schema with
  | .error defects => ⟨.error defects, []⟩
  | .ok hierarchy =>
    let flattening := hierarchy.flattening
    let (classes, findings) := (flattening.layouts.mapM (hierarchy.enterClass externals)).run
      { defects := flattening.defects }
    { outcome :=
        if findings.defects.isEmpty then
          .ok { root := schema.root, externals := findings.confirmed.names, classes }
        else .error findings.defects
      warnings := findings.warnings }

def resolveWith (schema : Schema) (externals : NameSet) : Except (List Defect) Model :=
  (schema.resolution externals).outcome

/-- Resolves a schema against the external types it declares itself. -/
def resolve (schema : Schema) : Except (List Defect) Model :=
  schema.resolveWith (NameSet.ofList schema.externals)

end Schema

end NodeModel
