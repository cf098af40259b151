import NodeModel.Proofs.Arena.WriteOnce
import NodeModel.Proofs.Source.Reading

/-! Setters: a deferred field takes a value exactly when the arena takes it, and the object then
stands for the changed node. -/
namespace NodeModel.Source

open Arena (NodeId Node Value Fault)

variable {model : Model} {heap : Array Object}

def Setter.Accepts (file : SourceFile) (heap : Array Object) : Setter → Data → Prop
  | .downgraded target, data => IsEdge file heap false target data
  | .direct type, data => HasType file heap type data

/-- What a setter stores has the type of the field and stands for the value given. -/
theorem Setter.yields (context : Context) (memory : Memory) {field : Model.Field} {argument : Data}
    (accepted : (Setter.of model field).Accepts (.of model) heap argument) :
    ∃ data, Yields ((Setter.of model field).expr.act context
        { locals := [("value",argument)] }) memory data memory ∧
      HasType (.of model) heap (.of model field) data ∧ data.value? = argument.value? := by
  have given : Yields ((Expr.variable "value").act context
      { locals := [("value",argument)] }) memory argument memory :=
    Expr.variable_yields rfl memory
  unfold Setter.of at accepted ⊢
  cases kind : field.kind with
  | single target =>
    rw [kind] at accepted
    cases weak : isWeak field with
    | false =>
      rw [weak] at accepted
      exact ⟨argument,given,accepted,rfl⟩
    | true =>
      rw [weak] at accepted
      obtain ⟨id,object,rfl,found,admitted⟩ := accepted
      have type : ValueType.of model field = .edge true (.of model target) := by
        rw [ValueType.of,kind,weak]
      refine ⟨.weak id,Expr.apply_yields given (.pure _ _),?_,rfl⟩
      rw [type]
      exact ⟨id,object,rfl,found,admitted⟩
  | _ =>
    rw [kind] at accepted
    exact ⟨argument,given,accepted,rfl⟩

theorem Object.put_names (object : Object) (name : String) (data : Data) :
    (object.put name data).members.map (·.1) = object.members.map (·.1) := by
  rw [Object.put,List.map_map]
  refine List.map_congr_left fun member _ => ?_
  by_cases same : member.1 = name
  · simp [same]
  · simp [same]

/-- Filling a cell and assigning the field go together. -/
theorem Object.StandsFor.put {object : Object} {node : Node}
    (stands : object.StandsFor model heap node) (lists : node.cls.Consistent)
    (slots : node.slots.length = node.cls.fields.length)
    (assigned : node.assigned.length = node.cls.fields.length) {position : Nat}
    {field : Model.Field} (atField : node.cls.fields[position]? = some field)
    (deferred : field.policy.bound = false) {data : Data} {value : Value}
    (typed : HasType (.of model) heap (.of model field) data) (shown : data.value? = some value) :
    (object.put field.name (.cell (some data))).StandsFor model heap
      (node.assign position value) := by
  obtain ⟨inside,_⟩ := List.getElem?_eq_some_iff.mp atField
  refine ⟨stands.cls,(object.put_names _ _).trans stands.names,fun place other atPlace => ?_⟩
  obtain ⟨old,atMember,represents⟩ := stands.members place other atPlace
  rw [Arena.Node.slot_assign (slots ▸ inside),Arena.Node.isAssigned_assign (assigned ▸ inside)]
  by_cases same : place = position
  · subst same
    cases Option.some.inj (atField.symm.trans atPlace)
    refine ⟨.cell (some data),?_,?_⟩
    · simp [Object.put,atMember]
    · rw [if_pos rfl,if_pos rfl]
      exact .filled (storage_of_deferred deferred) typed shown
  · have apart : other.name ≠ field.name := by
      intro named
      have left := (Arena.locate_eq_ok_iff lists.names).mpr ⟨atPlace,named⟩
      have right := (Arena.locate_eq_ok_iff lists.names).mpr ⟨atField,rfl⟩
      exact same (Prod.mk.inj (Except.ok.inj (left.symm.trans right))).1
    refine ⟨old,?_,?_⟩
    · simp [Object.put,atMember,apart]
    · rw [if_neg same,if_neg same]
      exact represents

/-- One object and its node may change together. -/
theorem Related.modify {nodes : Array Node} (related : Related model heap nodes) {id : NodeId}
    {object changed : Object} {node : Node} (change : Node → Node)
    (found : heap[id]? = some object) (atId : nodes[id]? = some node)
    (cls : changed.cls = object.cls) (stands : changed.StandsFor model heap (change node)) :
    Related model (heap.setIfInBounds id changed) (nodes.modify id change) := by
  have inside : id < heap.size := (Array.getElem?_eq_some_iff.mp found).1
  have kept : ClassesStay heap (heap.setIfInBounds id changed) := by
    intro place other atPlace
    by_cases same : place = id
    · subst same
      cases Option.some.inj (found.symm.trans atPlace)
      exact ⟨changed,by simp [inside],cls⟩
    · exact ⟨other,by simpa [Array.getElem?_setIfInBounds,Ne.symm same] using atPlace,rfl⟩
  refine ⟨by simpa using related.size,fun place other atPlace => ?_⟩
  rw [Array.getElem?_modify] at atPlace
  split at atPlace
  next same =>
    subst same
    rw [atId] at atPlace
    cases atPlace
    exact ⟨changed,by simp [inside],stands.mono kept⟩
  next apart =>
    obtain ⟨old,there,standing⟩ := related.objects place other atPlace
    exact ⟨old,by simpa [Array.getElem?_setIfInBounds,apart] using there,standing.mono kept⟩

/-- Outcomes of a setter and of an assignment in the arena that say the same. -/
inductive SameAssignment (model : Model) (heap : Array Object) (id : NodeId) :
    Except AlreadyAssigned Object → Except Fault Arena → Prop where
  | done {changed : Object} {arena : Arena}
      (related : Related model (heap.setIfInBounds id changed) arena.nodes) :
      SameAssignment model heap id (.ok changed) (.ok arena)
  | refused (cls field : String) :
      SameAssignment model heap id (.error ⟨cls,field⟩) (.error (.alreadyAssigned cls field))

/-- On an argument of the right type a setter does what the arena does. -/
theorem Sound.assign_yields (sound : Sound model) (context : Context) {memory : Memory}
    {arena : Arena}
    (valid : Arena.AllValid model (fun name ref => name = ref.type) arena.nodes)
    (related : Related model memory.heap arena.nodes) {id : NodeId} {object : Object}
    (found : memory.heap[id]? = some object) {node : Node} (atId : arena.nodes[id]? = some node)
    (stands : object.StandsFor model memory.heap node) {field : Model.Field}
    (inside : field ∈ node.cls.fields) (deferred : field.policy.bound = false) {argument : Data}
    (accepted : (Setter.of model field).Accepts (.of model) memory.heap argument) :
    ∃ value outcome, argument.value? = some value ∧
      Yields ((Accessor.of model field).assign context object argument) memory outcome memory ∧
      SameAssignment model memory.heap id outcome (arena.set id field.name value) := by
  have shape := valid id node atId
  have lists := sound.consistent.classes node.cls shape.cls
  obtain ⟨position,atField⟩ := List.getElem?_of_mem inside
  obtain ⟨data,stored,typed,same⟩ := Setter.yields context memory accepted
  obtain ⟨value,shown⟩ := typed.value
  obtain ⟨held,atMember,represents⟩ := stands.lookup lists atField
  have cell := storage_of_deferred deferred
  generalize flag_eq : node.isAssigned position = flag, node.slot position = slot at represents
  cases represents with
  | plain storage => simp [cell] at storage
  | option storage => simp [cell] at storage
  | empty =>
    have classes : Classes model arena.nodes := fun id node found => (valid id node found).cls
    have fits := ((sound.typed_iff related classes shape.cls inside value).mp ⟨data,typed,shown⟩).1
    have done := Arena.set_eq_ok_iff.mpr ⟨node,position,field,atId,
      (Arena.locate_eq_ok_iff lists.names).mpr ⟨atField,rfl⟩,deferred,flag_eq,fits,rfl⟩
    refine ⟨value,.ok (object.put field.name (.cell (some data))),same ▸ shown,stored.bind ?_,?_⟩
    · rw [show object.members.lookup (Accessor.of model field).field = _ from atMember]
      rfl
    · rw [done]
      have standing := stands.put lists shape.slots shape.assigned atField deferred typed shown
      exact .done (related.modify (·.assign position value) found atId rfl standing)
  | filled =>
    refine ⟨value,.error ⟨object.cls,field.name⟩,same ▸ shown,stored.bind ?_,?_⟩
    · rw [show object.members.lookup (Accessor.of model field).field = _ from atMember]
      rfl
    · rw [Arena.set_eq_alreadyAssigned atId lists atField deferred flag_eq,stands.cls]
      exact .refused _ _

end NodeModel.Source
