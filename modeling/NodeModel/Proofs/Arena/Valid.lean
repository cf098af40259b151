import NodeModel.Arena.Basic
import NodeModel.Proofs.Resolution.Consistency

/-! Validity of the nodes of an arena: one slot and one flag per field, contents that suit the
fields, and owned children that are older than their owner. -/
namespace NodeModel

namespace Model

def CloneStep.owns : CloneStep → Bool
  | .cloneChild | .cloneList => true
  | _ => false

theorem Field.owns_iff (field : Field) :
    field.step.owns = true ↔ field.policy.copyMode = .deep ∧ field.kind.isReference = true := by
  unfold Field.step CloneStep.of
  cases field.policy.copyMode <;> cases field.kind with
  | primitive value => cases value <;>
      simp [CloneStep.owns,FieldKind.isReference,FieldKind.target?]
  | _ => simp [CloneStep.owns,FieldKind.isReference,FieldKind.target?]

theorem Field.kind_of_cloneChild {field : Field} (step : field.step = .cloneChild) :
    ∃ target, field.kind = .single target := by
  unfold Field.step CloneStep.of at step
  cases mode : field.policy.copyMode <;> cases kind : field.kind <;> simp [mode,kind] at step ⊢
  split at step <;> simp at step

theorem Field.kind_of_cloneList {field : Field} (step : field.step = .cloneList) :
    ∃ target, field.kind = .list target := by
  unfold Field.step CloneStep.of at step
  cases mode : field.policy.copyMode <;> cases kind : field.kind <;> simp [mode,kind] at step ⊢
  split at step <;> simp at step

theorem Field.copyMode_of_externalCopy {field : Field} {type : String}
    (step : field.step = .externalCopy type) : field.policy.copyMode = .external := by
  unfold Field.step CloneStep.of at step
  cases mode : field.policy.copyMode with
  | external => rfl
  | reset => simp [mode] at step
  | share =>
    simp only [mode] at step
    split at step <;> simp at step
  | deep =>
    simp only [mode] at step
    split at step <;> simp at step

theorem Field.kind_of_externalCopy {field : Field} {type : String}
    (step : field.step = .externalCopy type)
    (mode : field.policy.copyMode.Admissible field.kind field.policy.bound) :
    field.kind = .primitive (.external type) := by
  have named := copyMode_of_externalCopy step
  obtain ⟨name,known⟩ := Option.isSome_iff_exists.mp (mode.1 named)
  simp only [Field.step,CloneStep.of,named,known,Option.getD_some,
    CloneStep.externalCopy.injEq] at step
  subst step
  cases kind : field.kind with
  | primitive value => cases value <;> simp [kind,FieldKind.external?] at known ⊢; exact known
  | _ => simp [kind,FieldKind.external?] at known

theorem Field.step_eq_reset_iff (field : Field) :
    field.step = .reset ↔ field.policy.copyMode = .reset := by
  unfold Field.step CloneStep.of
  cases mode : field.policy.copyMode with
  | reset => simp
  | _ => cases kind : field.kind <;> simp <;> split <;> simp

/-- Owned children are given to the constructor, never later. -/
theorem Class.Consistent.bound_of_owns {cls : Class} (consistent : cls.Consistent) {field : Field}
    (member : field ∈ cls.fields) (owns : field.step.owns = true) : field.policy.bound = true := by
  obtain ⟨deep,reference⟩ := field.owns_iff.mp owns
  exact ((consistent.modes field member).2 deep).2 reference

end Model

namespace Arena

/-- A value has the shape of a kind. `held` says which external values an external type takes. -/
def Value.ShapedAs (held : String → ExternalRef → Prop) : FieldKind → Value → Prop
  | .primitive .text, .text _ => True
  | .primitive .flag, .flag _ => True
  | .primitive .integer, .integer _ => True
  | .primitive (.external name), .external ref => held name ref
  | .single _, .node _ => True
  | .list _, .list _ => True
  | _, _ => False

theorem Value.hasShape_iff (kind : FieldKind) (value : Value) :
    value.hasShape kind = true ↔ value.ShapedAs (fun name ref => name = ref.type) kind := by
  cases kind with
  | primitive primitive =>
    cases primitive <;> cases value <;> simp [hasShape,ShapedAs]
  | single => cases value <;> simp [hasShape,ShapedAs]
  | list => cases value <;> simp [hasShape,ShapedAs]

theorem Value.ShapedAs.imp {held held' : String → ExternalRef → Prop} {kind : FieldKind}
    {value : Value} (weaker : ∀ name ref, held name ref → held' name ref)
    (shape : value.ShapedAs held kind) : value.ShapedAs held' kind := by
  unfold Value.ShapedAs at shape ⊢
  split at shape <;> simp_all

/-- A value suits a kind, and the nodes it refers to exist and are of the class asked for. -/
structure Value.Fits (held : String → ExternalRef → Prop) (nodes : Array Node) (kind : FieldKind)
    (value : Value) : Prop where
  shape : value.ShapedAs held kind
  targets : ∀ target, kind.target? = some target → ∀ id ∈ value.nodeIds,
    ∃ node, nodes[id]? = some node ∧ node.cls.isSubclassOf target = true

/-- The nodes of `before` are there with their classes, whatever became of their contents. -/
def ClassesKept (before after : Array Node) : Prop :=
  ∀ (id : NodeId) (node : Node), before[id]? = some node →
    ∃ node' : Node, after[id]? = some node' ∧ node'.cls = node.cls

theorem lt_size_of_found {nodes : Array Node} {id : NodeId} {node : Node}
    (found : nodes[id]? = some node) : id < nodes.size :=
  (Array.getElem?_eq_some_iff.mp found).1

theorem found_of_lt_size {nodes : Array Node} {id : NodeId} (inArena : id < nodes.size) :
    ∃ node, nodes[id]? = some node :=
  ⟨nodes[id],Array.getElem?_eq_getElem inArena⟩

def Keeps (before after : Array Node) : Prop :=
  ∀ (id : NodeId) (node : Node), before[id]? = some node → after[id]? = some node

theorem Keeps.refl (nodes : Array Node) : Keeps nodes nodes := fun _ _ found => found

theorem Keeps.trans {first second third : Array Node} (left : Keeps first second)
    (right : Keeps second third) : Keeps first third :=
  fun id node found => right id node (left id node found)

theorem Keeps.push (nodes : Array Node) (node : Node) : Keeps nodes (nodes.push node) := by
  intro id other found
  have bound := lt_size_of_found found
  simpa [Array.getElem?_push,Nat.ne_of_lt bound] using found

theorem Keeps.classes {before after : Array Node} (kept : Keeps before after) :
    ClassesKept before after :=
  fun id node found => ⟨node,kept id node found,rfl⟩

theorem Value.Fits.mono {held : String → ExternalRef → Prop} {before after : Array Node}
    {kind : FieldKind} {value : Value} (fits : value.Fits held before kind)
    (kept : ClassesKept before after) : value.Fits held after kind := by
  refine ⟨fits.shape,fun target named id member => ?_⟩
  obtain ⟨node,found,typed⟩ := fits.targets target named id member
  obtain ⟨node',found',same⟩ := kept id node found
  exact ⟨node',found',same ▸ typed⟩

/-- Whatever the kind, a value that fits refers to existing nodes only. -/
theorem Value.Fits.exists {held : String → ExternalRef → Prop} {nodes : Array Node}
    {kind : FieldKind} {value : Value} (fits : value.Fits held nodes kind) {id : NodeId}
    (member : id ∈ value.nodeIds) : ∃ node, nodes[id]? = some node := by
  cases kind with
  | single target =>
    obtain ⟨node,found,_⟩ := fits.targets target rfl id member
    exact ⟨node,found⟩
  | list target =>
    obtain ⟨node,found,_⟩ := fits.targets target rfl id member
    exact ⟨node,found⟩
  | primitive primitive =>
    have shape := fits.shape
    cases value <;> cases primitive <;> simp_all [Value.ShapedAs,Value.nodeIds]

structure Node.Valid (model : Model) (held : String → ExternalRef → Prop) (nodes : Array Node)
    (id : NodeId) (node : Node) : Prop where
  cls : node.cls ∈ model.classes
  slots : node.slots.length = node.cls.fields.length
  assigned : node.assigned.length = node.cls.fields.length
  fits : ∀ (position : Nat) (field : Model.Field) (value : Value),
    node.cls.fields[position]? = some field → node.slots[position]? = some (some value) →
    value.Fits held nodes field.kind
  owned : ∀ (position : Nat) (field : Model.Field) (value : Value),
    node.cls.fields[position]? = some field → field.step.owns = true →
    node.slots[position]? = some (some value) →
    ∀ child ∈ value.nodeIds, child < id

def AllValid (model : Model) (held : String → ExternalRef → Prop) (nodes : Array Node) : Prop :=
  ∀ (id : NodeId) (node : Node), nodes[id]? = some node → node.Valid model held nodes id

variable {model : Model} {held : String → ExternalRef → Prop} {nodes : Array Node}

theorem Node.Valid.slot_at {id : NodeId} {node : Node} (valid : node.Valid model held nodes id)
    {position : Nat} {field : Model.Field} (atField : node.cls.fields[position]? = some field) :
    node.slots[position]? = some (node.slot position) := by
  obtain ⟨bound,_⟩ := List.getElem?_eq_some_iff.mp atField
  have inside : position < node.slots.length := valid.slots ▸ bound
  simp [Node.slot,List.getElem?_eq_getElem inside]

theorem Node.Valid.mono {after : Array Node} {id : NodeId} {node : Node}
    (valid : node.Valid model held nodes id) (kept : ClassesKept nodes after) :
    node.Valid model held after id :=
  { valid with fits := fun position field value atField atSlot =>
      (valid.fits position field value atField atSlot).mono kept }

/-- A node may be added if it is valid beside those that are there. -/
theorem AllValid.push (valid : AllValid model held nodes) {node : Node}
    (fresh : node.Valid model held nodes nodes.size) : AllValid model held (nodes.push node) := by
  intro id other found
  rw [Array.getElem?_push] at found
  split at found
  next same =>
    cases same
    cases found
    exact fresh.mono ((Keeps.push nodes node).classes)
  next => exact (valid id other found).mono ((Keeps.push nodes node).classes)

end Arena

end NodeModel
