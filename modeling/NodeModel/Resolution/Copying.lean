import NodeModel.Hierarchy.Defect
import NodeModel.Model.Basic

/-! Copy modes: the one a field gets by itself, those it may have, and the clone steps they lead
to. -/
namespace NodeModel

/-- The copy mode of a field whose author names none. -/
def CopyMode.usual (kind : FieldKind) (bound : Bool) : CopyMode :=
  match kind with
  | .primitive (.external _) => .share
  | .primitive _ => if bound then .deep else .share
  | .single _ | .list _ => if bound then .deep else .reset

/-- Why a copy mode cannot be honoured for a kind and binding. -/
def CopyMode.defect? (kind : FieldKind) (bound : Bool) : CopyMode → Option CopyDefect
  | .external => if kind.external?.isSome then none else some .notExternal
  | .deep =>
    if kind.external?.isSome then some .deepExternal
    else if kind.isReference && !bound then some .deepDeferred
    else none
  | .share | .reset => none

namespace Model

/-- What a required deferred field holds before it is assigned. -/
def Default.sentinel : FieldKind → Default
  | .primitive .flag => .isFalse
  | .primitive .integer => .zero
  | .primitive .text => .emptyText
  | .list _ => .emptyList
  | .single _ | .primitive (.external _) => .unset

def CloneStep.of (kind : FieldKind) : CopyMode → CloneStep
  | .reset => .reset
  | .external => .externalCopy (kind.external?.getD "")
  | .share =>
    match kind with
    | .primitive .text | .primitive .flag | .primitive .integer => .copyValue
    | _ => .shareReference
  | .deep =>
    match kind with
    | .single _ => .cloneChild
    | .list _ => .cloneList
    | .primitive _ => .copyValue

end Model

end NodeModel
