import NodeModel.Proofs.Arena.Run
import NodeModel.Proofs.Arena.Unfolding
import NodeModel.Proofs.Arena.Walking

/-! Type safety: whatever the operations, nodes keep to their classes, and every question about an
existing node is answered. -/
namespace NodeModel.Arena

variable {model : Model} {held : String → ExternalRef → Prop} {arena : Arena}

theorem get_eq_ok (consistent : model.Consistent) (valid : AllValid model held arena.nodes)
    {id : NodeId} {node : Node} (found : arena.nodes[id]? = some node) {position : Nat}
    {field : Model.Field} (atField : node.cls.fields[position]? = some field) :
    arena.get id field.name = .ok (node.slot position) := by
  have lists := consistent.classes node.cls (valid id node found).cls
  rw [Arena.get,node_eq_ok_iff.mpr found]
  simp only [bind,Except.bind,(locate_eq_ok_iff lists.names).mpr ⟨atField,rfl⟩]
  rfl

theorem children_ok (consistent : model.Consistent) (valid : AllValid model held arena.nodes)
    {id : NodeId} (inArena : id < arena.size) :
    ∃ children, arena.children id = .ok children ∧ ∀ child ∈ children, child < arena.size := by
  obtain ⟨node,found⟩ := found_of_lt_size inArena
  have shape := valid id node found
  have lists := consistent.classes node.cls shape.cls
  have each : ∀ slot ∈ node.cls.traversal, ∃ ids,
      (do let place ← locate node.cls slot.field
          return ((node.slot place.1).map Value.nodeIds).getD [] : Except Fault _) = .ok ids ∧
      ∀ child ∈ ids, child < arena.size := by
    intro slot member
    rw [lists.traversal] at member
    obtain ⟨field,visited,rfl⟩ := List.mem_map.mp member
    obtain ⟨position,atField⟩ := List.getElem?_of_mem (List.mem_of_mem_filter visited)
    refine ⟨((node.slot position).map Value.nodeIds).getD [],?_,?_⟩
    · simp only [(locate_eq_ok_iff lists.names).mpr ⟨atField,rfl⟩]
      rfl
    · cases held : node.slot position with
      | none => simp
      | some value =>
        intro child inside
        obtain ⟨other,existing⟩ := (shape.fits position field value atField
          (held ▸ shape.slot_at atField)).exists (by simpa using inside)
        exact lt_size_of_found existing
  obtain ⟨edges,given,inside⟩ := mapM_ok _ each
  refine ⟨edges.flatten,?_,?_⟩
  · rw [children,node_eq_ok_iff.mpr found]
    exact congrArg (· >>= fun edges => pure edges.flatten) given
  · intro child member
    obtain ⟨ids,inEdges,inIds⟩ := List.mem_flatten.mp member
    exact inside ids inEdges child inIds

theorem closed (consistent : model.Consistent) (valid : AllValid model held arena.nodes) :
    arena.Closed := fun _ => children_ok consistent valid

/-- The copier of the operation, if it has one, hands out references of the type it was given. -/
def Operation.KeepsTypes : Operation → Prop
  | .clone _ copier => ∀ handed ref, (copier handed ref).type = ref.type
  | _ => True

theorem Operation.KeepsTypes.respects {operation : Operation} (typed : operation.KeepsTypes) :
    operation.Respects fun name ref => name = ref.type := by
  cases operation with
  | clone id copier =>
    rintro name ref new rfl ⟨handed,rfl⟩
    exact (typed handed ref).symm
  | _ => trivial

structure Node.WellTyped (nodes : Array Node) (node : Node) : Prop where
  slots : node.slots.length = node.cls.fields.length
  assigned : node.assigned.length = node.cls.fields.length
  shape : ∀ (position : Nat) (field : Model.Field) (value : Value),
    node.cls.fields[position]? = some field → node.slots[position]? = some (some value) →
    value.hasShape field.kind = true
  target : ∀ (position : Nat) (field : Model.Field) (value : Value) (target : String),
    node.cls.fields[position]? = some field → node.slots[position]? = some (some value) →
    field.kind.target? = some target → ∀ id ∈ value.nodeIds,
    ∃ other, nodes[id]? = some other ∧ other.cls.isSubclassOf target = true

/-- Every question about a node has an answer, and no list is read past its end. -/
structure Answers (arena : Arena) (id : NodeId) : Prop where
  get : ∀ cls, arena.classOf id = .ok cls → ∀ field ∈ cls.fields,
    ∃ slot, arena.get id field.name = .ok slot
  children : ∃ children, arena.children id = .ok children ∧ ∀ child ∈ children, child < arena.size
  walk : ∃ visited, arena.walk id = .ok visited ∧ ∀ seen ∈ visited, seen < arena.size
  missing : ∃ fields, arena.missingFields id = .ok fields
  equal : ∀ other < arena.size, ∃ answer, arena.structurallyEqual id other = .ok answer
  clone : ∀ copier, ∃ copy, (arena.clone copier id).result = .ok copy
  /-- A position in the class of the node is one in every node of that class. -/
  bounds : ∀ cls, arena.classOf id = .ok cls → ∀ name position field,
    locate cls name = .ok (position,field) → ∀ other ∈ arena.nodes, other.cls.name = cls.name →
    position < other.slots.length ∧ position < other.assigned.length

theorem Node.Valid.wellTyped {nodes : Array Node} {id : NodeId} {node : Node}
    (valid : node.Valid model (fun name ref => name = ref.type) nodes id) :
    node.WellTyped nodes where
  slots := valid.slots
  assigned := valid.assigned
  shape position field value atField atSlot :=
    (value.hasShape_iff field.kind).mpr (valid.fits position field value atField atSlot).shape
  target position field value target atField atSlot :=
    (valid.fits position field value atField atSlot).targets target

theorem classOf_eq_ok {id : NodeId} {cls : Model.Class} (known : arena.classOf id = .ok cls) :
    ∃ node, arena.nodes[id]? = some node ∧ node.cls = cls := by
  unfold classOf Arena.node at known
  cases found : arena.nodes[id]? with
  | none => simp [found,bind,Except.bind] at known
  | some node => exact ⟨node,rfl,by simpa [found,bind,Except.bind,pure,Except.pure] using known⟩

theorem answers (consistent : model.Consistent) (valid : AllValid model held arena.nodes)
    {id : NodeId} (inArena : id < arena.size) : arena.Answers id := by
  constructor
  case get =>
    intro cls known field member
    obtain ⟨node,found,rfl⟩ := classOf_eq_ok known
    obtain ⟨position,atField⟩ := List.getElem?_of_mem member
    exact ⟨_,get_eq_ok consistent valid found atField⟩
  case children => exact children_ok consistent valid inArena
  case walk =>
    obtain ⟨visited,visits,inside⟩ := exists_walk (closed consistent valid) inArena
    exact ⟨visited,walk_eq_of_visits visits,inside⟩
  case missing =>
    have found := node_eq_ok_iff.mpr (Array.getElem?_eq_getElem inArena)
    exact ⟨_,by rw [missingFields,found]; rfl⟩
  case equal =>
    intro other there
    obtain ⟨answer,_,given⟩ := equalNodes_decides consistent valid id other inArena there
    exact ⟨answer,given _ (Nat.le_succ_of_le inArena)⟩
  case clone =>
    intro copier
    obtain ⟨copy,_,_,same,_⟩ := clone_existing consistent valid copier inArena
    exact ⟨copy,by rw [same]⟩
  case bounds =>
    intro cls known name position field located other member same
    obtain ⟨node,found,rfl⟩ := classOf_eq_ok known
    obtain ⟨place,atPlace⟩ := Array.getElem?_of_mem member
    have first := valid id node found
    have second := valid place other atPlace
    have cls := consistent.eq_of_name second.cls first.cls same
    obtain ⟨atField,_⟩ :=
      (locate_eq_ok_iff (consistent.classes _ first.cls).names).mp located
    obtain ⟨bound,_⟩ := List.getElem?_eq_some_iff.mp atField
    rw [second.slots,second.assigned,cls]
    exact ⟨bound,bound⟩

/-- No run over a resolved model goes wrong, whatever it attempts. -/
theorem run_typeSafe {schema : Schema} {externals : NameSet} {model : Model} {arena : Arena}
    (resolved : schema.resolveWith externals = .ok model)
    (reached : Reached model Operation.KeepsTypes arena) :
    (∀ (id : NodeId) (node : Node), arena.nodes[id]? = some node →
      node.cls ∈ model.classes ∧ node.WellTyped arena.nodes) ∧
    ∀ id < arena.size, arena.Answers id := by
  have consistent := Schema.consistent_of_resolved resolved
  have valid := reached.valid consistent (fun _ _ same => same) fun _ typed => typed.respects
  exact ⟨fun id node found => ⟨(valid id node found).cls,(valid id node found).wellTyped⟩,
    fun id inArena => answers consistent valid inArena⟩

theorem run_typeSafe_sample :
    Reached sampleModel Operation.KeepsTypes sampleArena ∧ 4 < sampleArena.size ∧
    sampleArena.Answers 4 := by
  have reached : Reached sampleModel Operation.KeepsTypes sampleArena :=
    sampleArena_reached (by simp [sampleRun,Operation.KeepsTypes])
  have inside : 4 < sampleArena.size := by decide
  exact ⟨reached,inside,(run_typeSafe sample_resolved reached).2 4 inside⟩

end NodeModel.Arena
