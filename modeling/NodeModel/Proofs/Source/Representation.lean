import NodeModel.Proofs.Arena.Operations
import NodeModel.Proofs.Resolution.Targets
import NodeModel.Proofs.Source.Meaning

/-! Objects that stand for nodes. A heap goes with an arena if the object at each place stands for
the node at that place, member by member: a plain member holds the contents of the slot, an optional
one holds them if there are any, an empty cell goes with an unassigned field, a filled one with an
assigned field. -/
namespace NodeModel.Source

open Arena (NodeId ExternalRef Node Value initialSlot)

def Data.target? : Data → Option NodeId
  | .strong id | .weak id => some id
  | _ => none

def Data.value? : Data → Option Value
  | .text value => some (.text value)
  | .flag value => some (.flag value)
  | .number value => some (.integer value)
  | .external ref => some (.external ref)
  | .strong id | .weak id => some (.node id)
  | .vec items => some (.list (items.filterMap Data.target?))
  | _ => none

/-- The contents of data that may be missing. -/
def Data.contents : Data → Option Value
  | .option contents | .cell contents => contents.bind Data.value?
  | data => data.value?

/-- The classes whose objects can stand behind an edge. Only the class counts: a leaf may stand
behind edges of its struct and of its families alike. -/
def Target.Admits (file : SourceFile) (cls : String) : Target → Prop
  | .struct name => cls = name
  | .family name => ∃ family ∈ file.families, family.cls = name ∧ cls ∈ family.leaves

def edge (weak : Bool) (id : NodeId) : Data := if weak then .weak id else .strong id

/-- An edge to a living object of the right class. -/
def IsEdge (file : SourceFile) (heap : Array Object) (weak : Bool) (target : Target)
    (data : Data) : Prop :=
  ∃ id object, data = edge weak id ∧ heap[id]? = some object ∧ target.Admits file object.cls

def HasType (file : SourceFile) (heap : Array Object) : ValueType → Data → Prop
  | .text, data => ∃ value, data = .text value
  | .flag, data => ∃ value, data = .flag value
  | .number, data => ∃ value, data = .number value
  | .external name, data => ∃ ref, data = .external ref ∧ ref.type = name
  | .edge weak target, data => IsEdge file heap weak target data
  | .edges weak target, data =>
    ∃ items, data = .vec items ∧ ∀ item ∈ items, IsEdge file heap weak target item

/-- Objects keep their places and classes, whatever becomes of their members. -/
def ClassesStay (before after : Array Object) : Prop :=
  ∀ (id : NodeId) (object : Object), before[id]? = some object →
    ∃ object' : Object, after[id]? = some object' ∧ object'.cls = object.cls

theorem ClassesStay.refl (heap : Array Object) : ClassesStay heap heap :=
  fun _ object found => ⟨object,found,rfl⟩

theorem ClassesStay.trans {first second third : Array Object} (left : ClassesStay first second)
    (right : ClassesStay second third) : ClassesStay first third := by
  intro id object found
  obtain ⟨object',found',same⟩ := left id object found
  obtain ⟨object'',found'',same'⟩ := right id object' found'
  exact ⟨object'',found'',same'.trans same⟩

theorem ClassesStay.push (heap : Array Object) (object : Object) :
    ClassesStay heap (heap.push object) := by
  intro id other found
  have bound := (Array.getElem?_eq_some_iff.mp found).1
  exact ⟨other,by simpa [Array.getElem?_push,Nat.ne_of_lt bound] using found,rfl⟩

section

variable {file : SourceFile} {heap after : Array Object}

theorem IsEdge.eq {weak : Bool} {target : Target} {data : Data}
    (typed : IsEdge file heap weak target data) : ∃ id, data = edge weak id := by
  obtain ⟨id,_,same,_⟩ := typed
  exact ⟨id,same⟩

theorem IsEdge.mono {weak : Bool} {target : Target} {data : Data}
    (edge : IsEdge file heap weak target data) (kept : ClassesStay heap after) :
    IsEdge file after weak target data := by
  obtain ⟨id,object,same,found,admitted⟩ := edge
  obtain ⟨object',found',cls⟩ := kept id object found
  exact ⟨id,object',same,found',cls ▸ admitted⟩

theorem HasType.mono {type : ValueType} {data : Data} (typed : HasType file heap type data)
    (kept : ClassesStay heap after) : HasType file after type data := by
  cases type with
  | edge weak target => exact IsEdge.mono typed kept
  | edges weak target =>
    obtain ⟨items,same,each⟩ := typed
    exact ⟨items,same,fun item member => (each item member).mono kept⟩
  | _ => exact typed

/-- Typed data stand for a value. -/
theorem HasType.value {type : ValueType} {data : Data} (typed : HasType file heap type data) :
    ∃ value, data.value? = some value := by
  cases type with
  | external name =>
    obtain ⟨ref,rfl,_⟩ := typed
    exact ⟨_,rfl⟩
  | edge weak target =>
    obtain ⟨id,rfl⟩ := IsEdge.eq typed
    cases weak <;> exact ⟨_,rfl⟩
  | edges weak target =>
    obtain ⟨items,rfl,_⟩ := typed
    exact ⟨_,rfl⟩
  | _ =>
    obtain ⟨value,rfl⟩ := typed
    exact ⟨_,rfl⟩

end

/-- How the data of a member stand for a slot and its flag. -/
inductive Represents (model : Model) (heap : Array Object) (field : Model.Field) :
    Data → Option Value → Bool → Prop where
  | plain {data : Data} {value : Value} {flag : Bool} (storage : Storage.of field = .plain)
      (typed : HasType (.of model) heap (.of model field) data)
      (shown : data.value? = some value) : Represents model heap field data (some value) flag
  | option {contents : Option Data} {flag : Bool} (storage : Storage.of field = .option)
      (typed : ∀ data ∈ contents, HasType (.of model) heap (.of model field) data) :
      Represents model heap field (.option contents) (contents.bind Data.value?) flag
  | empty (storage : Storage.of field = .cell) :
      Represents model heap field (.cell none) (initialSlot field) false
  | filled {data : Data} {value : Value} (storage : Storage.of field = .cell)
      (typed : HasType (.of model) heap (.of model field) data)
      (shown : data.value? = some value) :
      Represents model heap field (.cell (some data)) (some value) true

structure Object.StandsFor (model : Model) (heap : Array Object) (object : Object) (node : Node) :
    Prop where
  cls : object.cls = node.cls.name
  names : object.members.map (·.1) = node.cls.fields.map (·.name)
  members : ∀ (position : Nat) (field : Model.Field), node.cls.fields[position]? = some field →
    ∃ data, object.members[position]? = some (field.name,data) ∧
      Represents model heap field data (node.slot position) (node.isAssigned position)

/-- Heap and arena agree place by place. -/
structure Related (model : Model) (heap : Array Object) (nodes : Array Node) : Prop where
  size : heap.size = nodes.size
  objects : ∀ (id : NodeId) (node : Node), nodes[id]? = some node →
    ∃ object, heap[id]? = some object ∧ object.StandsFor model heap node

variable {model : Model} {heap after : Array Object} {nodes : Array Node}

theorem Represents.mono {field : Model.Field} {data : Data} {slot : Option Value} {flag : Bool}
    (represents : Represents model heap field data slot flag) (kept : ClassesStay heap after) :
    Represents model after field data slot flag := by
  cases represents with
  | plain storage typed shown => exact .plain storage (typed.mono kept) shown
  | option storage typed => exact .option storage fun data member => (typed data member).mono kept
  | empty storage => exact .empty storage
  | filled storage typed shown => exact .filled storage (typed.mono kept) shown

theorem Object.StandsFor.mono {object : Object} {node : Node}
    (stands : object.StandsFor model heap node) (kept : ClassesStay heap after) :
    object.StandsFor model after node := by
  refine ⟨stands.cls,stands.names,fun position field atField => ?_⟩
  obtain ⟨data,atMember,represents⟩ := stands.members position field atField
  exact ⟨data,atMember,represents.mono kept⟩

theorem Related.push (related : Related model heap nodes) {object : Object} {node : Node}
    (stands : object.StandsFor model heap node) :
    Related model (heap.push object) (nodes.push node) := by
  refine ⟨by simp [related.size],fun id other found => ?_⟩
  have kept := ClassesStay.push heap object
  rw [Array.getElem?_push] at found ⊢
  rw [related.size]
  split at found
  next here =>
    cases found
    exact ⟨object,by simp [here],stands.mono kept⟩
  next there =>
    obtain ⟨old,atId,standing⟩ := related.objects id other found
    exact ⟨old,by simp [there,atId],standing.mono kept⟩

/-- Every object stands for the node at its place. -/
theorem Related.found (related : Related model heap nodes) {id : NodeId} {object : Object}
    (found : heap[id]? = some object) :
    ∃ node, nodes[id]? = some node ∧ object.StandsFor model heap node := by
  have bound : id < nodes.size := related.size ▸ (Array.getElem?_eq_some_iff.mp found).1
  obtain ⟨other,atId,stands⟩ := related.objects id nodes[id] (Array.getElem?_eq_getElem bound)
  cases Option.some.inj (found.symm.trans atId)
  exact ⟨nodes[id],Array.getElem?_eq_getElem bound,stands⟩

/-- A member is found by the name of its field. -/
theorem Object.StandsFor.lookup {object : Object} {node : Node}
    (stands : object.StandsFor model heap node) (lists : node.cls.Consistent) {position : Nat}
    {field : Model.Field} (atField : node.cls.fields[position]? = some field) :
    ∃ data, object.members.lookup field.name = some data ∧
      Represents model heap field data (node.slot position) (node.isAssigned position) := by
  obtain ⟨data,atMember,represents⟩ := stands.members position field atField
  exact ⟨data,lookup_of_getElem? (stands.names ▸ lists.names) atMember,represents⟩

end NodeModel.Source
