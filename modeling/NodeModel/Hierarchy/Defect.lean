import NodeModel.Schema.Basic

/-! Defects of a schema. Each has a stable code beside its message. -/
namespace NodeModel

/-- Why a mangle pair cannot be bound. -/
inductive MangleDefect where
  | alreadyDeclared
  | sameField
  | noSuchField
  | wrongKind (expected found : FieldKind)
deriving DecidableEq, Repr

def MangleDefect.message : MangleDefect → String
  | .alreadyDeclared => "a superclass already declares a mangle indicator"
  | .sameField => "the same field cannot be both name and flag"
  | .noSuchField => "no such field in the flattened field list"
  | .wrongKind expected found => s!"expected {expected.label}, found {found.label}"

/-- Why a copy mode does not suit a field. -/
inductive CopyDefect where
  | notExternal
  | deepExternal
  | deepDeferred
deriving DecidableEq, Repr

def CopyDefect.message : CopyDefect → String
  | .notExternal => "external copy applies only to opaque external types"
  | .deepExternal => "external types are never deep-copied by the core; use external_copy"
  | .deepDeferred => "deferred node references are shared or reset, never deep-copied"

inductive Defect where
  | unresolvedSuperclass (cls superclass : String)
  | unresolvedType (cls field type : String)
  /-- `ancestor` declares the inherited field; it is absent when the name repeats within `cls`. -/
  | redeclared (cls field : String) (ancestor : Option String) (identical : Bool)
  | unboundMangle (cls field : String) (reason : MangleDefect)
  | cycle (members : List String)
  | duplicateClass (cls : String)
  | multipleRoots (roots : List String)
  | copyMode (cls field : String) (mode : CopyMode) (reason : CopyDefect)
deriving DecidableEq, Repr

namespace Defect

def code : Defect → String
  | .unresolvedSuperclass .. => "UNRESOLVED_SUPERCLASS"
  | .unresolvedType .. => "UNRESOLVED_FIELD_TYPE"
  | .redeclared .. => "FIELD_REDECLARATION"
  | .unboundMangle .. => "INVALID_INDICATOR_BINDING"
  | .cycle .. => "CYCLIC_HIERARCHY"
  | .duplicateClass .. => "DUPLICATE_CLASS"
  | .multipleRoots .. => "MULTIPLE_ROOTS"
  | .copyMode .. => "INVALID_COPY_MODE"

def message : Defect → String
  | .unresolvedSuperclass cls superclass =>
    s!"class '{cls}' extends '{superclass}', which is not declared"
  | .unresolvedType cls field type => s!"field '{cls}.{field}' refers to unknown type '{type}'"
  | .redeclared cls field (some ancestor) true =>
    s!"field '{cls}.{field}' repeats the identical declaration inherited from '{ancestor}'; rename it"
  | .redeclared cls field (some ancestor) false =>
    s!"field '{cls}.{field}' redeclares the field inherited from '{ancestor}' " ++
      "with a different kind or policy"
  | .redeclared cls field none _ => s!"field '{cls}.{field}' is declared more than once"
  | .unboundMangle cls field reason =>
    s!"mangle indicator on '{cls}' cannot bind field '{field}': {reason.message}"
  | .cycle members => "superclass cycle: " ++ " -> ".intercalate members
  | .duplicateClass cls => s!"class '{cls}' is declared more than once"
  | .multipleRoots roots => "hierarchy has more than one root: " ++ ", ".intercalate roots
  | .copyMode cls field mode reason =>
    s!"field '{cls}.{field}' cannot use copy mode '{mode.label}': {reason.message}"

/-- All defects of one run, a line each after their number. -/
def report (defects : List Defect) : String :=
  "\n".intercalate (s!"schema has {defects.length} error(s)" ::
    defects.map fun defect => s!"  [{defect.code}] {defect.message}")

end Defect

end NodeModel
