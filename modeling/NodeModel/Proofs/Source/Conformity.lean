import NodeModel.Proofs.Source.Representation

/-! What the types of the emitted source admit, against what an arena checks: typed data stand for
values that fit, and a value that fits can be typed exactly if it refers to leaves only, as only
these stand behind edges. -/
namespace NodeModel.Source

open Arena (NodeId ExternalRef Node Value AllValid)

variable {model : Model} {heap : Array Object} {nodes : Array Node}

structure Sound (model : Model) : Prop where
  consistent : model.Consistent
  closed : model.Closed

theorem Sound.of_resolved {schema : Schema} {externals : NameSet}
    (resolved : schema.resolveWith externals = .ok model) : Sound model :=
  ⟨Schema.consistent_of_resolved resolved,Schema.closed_of_resolved resolved⟩

theorem Sound.class?_eq_some (sound : Sound model) {cls : Model.Class}
    (member : cls ∈ model.classes) : model.class? cls.name = some cls :=
  sound.consistent.class?_eq_some member

def Classes (model : Model) (nodes : Array Node) : Prop :=
  ∀ (id : NodeId) (node : Node), nodes[id]? = some node → node.cls ∈ model.classes

theorem Classes.push (classes : Classes model nodes) {node : Node}
    (member : node.cls ∈ model.classes) : Classes model (nodes.push node) := by
  intro id other found
  rw [Array.getElem?_push] at found
  split at found
  next =>
    cases found
    exact member
  next => exact classes id other found

/-- Behind an edge there are the leaves below its target. -/
theorem Sound.admits_iff (sound : Sound model) {target cls : Model.Class}
    (known : target ∈ model.classes) (member : cls ∈ model.classes) :
    (Target.of model target.name).Admits (.of model) cls.name ↔
      cls.isSubclassOf target.name = true ∧ cls.isLeaf = true := by
  rw [Target.of,sound.class?_eq_some known]
  dsimp only
  split
  next leaf =>
    constructor
    · intro named
      cases sound.consistent.eq_of_name member known named
      exact ⟨sound.closed.self _ member,leaf⟩
    · rintro ⟨below,_⟩
      exact congrArg _ (sound.closed.leaves cls member target known leaf below)
  next category =>
    constructor
    · rintro ⟨family,listed,named,inside⟩
      obtain ⟨other,_,rfl⟩ := List.mem_map.mp listed
      obtain ⟨leaf,below,same⟩ := List.mem_map.mp inside
      obtain ⟨inLeaves,subclass⟩ := List.mem_filter.mp below
      obtain ⟨there,isLeaf⟩ := List.mem_filter.mp inLeaves
      cases sound.consistent.eq_of_name there member same
      exact ⟨by rw [← named]; exact subclass,isLeaf⟩
    · rintro ⟨below,leaf⟩
      refine ⟨.of model target,List.mem_map_of_mem (List.mem_filter.mpr ⟨known,?_⟩),rfl,
        List.mem_map_of_mem ?_⟩
      · simpa using category
      · exact List.mem_filter.mpr ⟨List.mem_filter.mpr ⟨member,leaf⟩,below⟩

/-- An edge of a field stands for a node of the field's class that is a leaf. -/
theorem Sound.isEdge_iff (sound : Sound model) (related : Related model heap nodes)
    (classes : Classes model nodes) {target : Model.Class} (known : target ∈ model.classes)
    {weak : Bool} {id : NodeId} :
    IsEdge (.of model) heap weak (.of model target.name) (edge weak id) ↔
      ∃ node, nodes[id]? = some node ∧ node.cls.isSubclassOf target.name = true ∧
        node.cls.isLeaf = true := by
  constructor
  · rintro ⟨other,object,same,found,admitted⟩
    obtain rfl : id = other := by cases weak <;> simpa [edge] using same
    obtain ⟨node,atId,stands⟩ := related.found found
    rw [stands.cls] at admitted
    exact ⟨node,atId,(sound.admits_iff known (classes id node atId)).mp admitted⟩
  · rintro ⟨node,atId,conforms⟩
    obtain ⟨object,found,stands⟩ := related.objects id node atId
    refine ⟨id,object,rfl,found,?_⟩
    rw [stands.cls]
    exact (sound.admits_iff known (classes id node atId)).mpr conforms

theorem target?_edge (weak : Bool) (id : NodeId) : (edge weak id).target? = some id := by
  cases weak <;> rfl

theorem value?_edge (weak : Bool) (id : NodeId) : (edge weak id).value? = some (.node id) := by
  cases weak <;> rfl

theorem filterMap_edges (weak : Bool) (ids : List NodeId) :
    (ids.map (edge weak)).filterMap Data.target? = ids := by
  rw [List.filterMap_map]
  exact (List.filterMap_congr fun id _ => target?_edge weak id).trans List.filterMap_some

theorem edges_of_typed {file : SourceFile} {weak : Bool} {target : Target} {items : List Data}
    (each : ∀ item ∈ items, IsEdge file heap weak target item) :
    items = (items.filterMap Data.target?).map (edge weak) := by
  induction items with
  | nil => rfl
  | cons item items ih =>
    obtain ⟨id,rfl⟩ := (each item List.mem_cons_self).eq
    have rest := ih fun other member => each other (List.mem_cons_of_mem _ member)
    rw [List.filterMap_cons_some (target?_edge weak id),List.map_cons,← rest]

/-- The nodes that a value refers to are leaves. -/
def ToLeaves (nodes : Array Node) (value : Value) : Prop :=
  ∀ id ∈ value.nodeIds, ∀ node, nodes[id]? = some node → node.cls.isLeaf = true

theorem Sound.target (sound : Sound model) {cls : Model.Class} (member : cls ∈ model.classes)
    {field : Model.Field} (inside : field ∈ cls.fields) {name : String}
    (reference : field.kind.target? = some name) :
    ∃ target ∈ model.classes, target.name = name :=
  sound.closed.targets cls member field inside name reference

theorem Sound.edge_iff (sound : Sound model) (related : Related model heap nodes)
    (classes : Classes model nodes) {target : Model.Class} (known : target ∈ model.classes)
    {weak : Bool} (value : Value) :
    (∃ data, IsEdge (.of model) heap weak (.of model target.name) data ∧
        data.value? = some value) ↔
      value.Fits (fun name ref => name = ref.type) nodes (.single target.name) ∧
        ToLeaves nodes value := by
  constructor
  · rintro ⟨data,typed,shown⟩
    obtain ⟨id,rfl⟩ := typed.eq
    obtain ⟨node,atId,below,leaf⟩ := (sound.isEdge_iff related classes known).mp typed
    rw [value?_edge] at shown
    cases shown
    refine ⟨⟨trivial,?_⟩,?_⟩
    · rintro _ ⟨⟩ other inside
      obtain rfl := List.mem_singleton.mp inside
      exact ⟨node,atId,below⟩
    · intro other inside found there
      obtain rfl := List.mem_singleton.mp inside
      cases Option.some.inj (atId.symm.trans there)
      exact leaf
  · rintro ⟨fits,leaves⟩
    cases value with
    | node id =>
      obtain ⟨node,atId,below⟩ := fits.targets _ rfl id List.mem_cons_self
      have leaf := leaves id List.mem_cons_self node atId
      exact ⟨edge weak id,(sound.isEdge_iff related classes known).mpr ⟨node,atId,below,leaf⟩,
        value?_edge weak id⟩
    | _ => exact fits.shape.elim

theorem Sound.edges_iff (sound : Sound model) (related : Related model heap nodes)
    (classes : Classes model nodes) {target : Model.Class} (known : target ∈ model.classes)
    {weak : Bool} (value : Value) :
    (∃ data, HasType (.of model) heap (.edges weak (.of model target.name)) data ∧
        data.value? = some value) ↔
      value.Fits (fun name ref => name = ref.type) nodes (.list target.name) ∧
        ToLeaves nodes value := by
  constructor
  · rintro ⟨data,⟨items,rfl,each⟩,shown⟩
    cases shown
    have found : ∀ id ∈ items.filterMap Data.target?, ∃ node, nodes[id]? = some node ∧
        node.cls.isSubclassOf target.name = true ∧ node.cls.isLeaf = true := by
      intro id inside
      refine (sound.isEdge_iff related classes known).mp (each (edge weak id) ?_)
      rw [edges_of_typed each]
      exact List.mem_map_of_mem inside
    refine ⟨⟨trivial,?_⟩,?_⟩
    · rintro _ ⟨⟩ id inside
      obtain ⟨node,atId,below,_⟩ := found id inside
      exact ⟨node,atId,below⟩
    · intro id inside node there
      obtain ⟨other,atId,_,leaf⟩ := found id inside
      cases Option.some.inj (atId.symm.trans there)
      exact leaf
  · rintro ⟨fits,leaves⟩
    cases value with
    | list ids =>
      refine ⟨.vec (ids.map (edge weak)),⟨_,rfl,fun item inside => ?_⟩,?_⟩
      · obtain ⟨id,listed,rfl⟩ := List.mem_map.mp inside
        obtain ⟨node,atId,below⟩ := fits.targets _ rfl id listed
        exact (sound.isEdge_iff related classes known).mpr
          ⟨node,atId,below,leaves id listed node atId⟩
      · simp only [Data.value?,filterMap_edges]
    | _ => exact fits.shape.elim

/-- A value is that of typed data exactly if it fits the field and refers to leaves. -/
theorem Sound.typed_iff (sound : Sound model) (related : Related model heap nodes)
    (classes : Classes model nodes) {cls : Model.Class} (member : cls ∈ model.classes)
    {field : Model.Field} (inside : field ∈ cls.fields) (value : Value) :
    (∃ data, HasType (.of model) heap (.of model field) data ∧ data.value? = some value) ↔
      value.Fits (fun name ref => name = ref.type) nodes field.kind ∧ ToLeaves nodes value := by
  unfold ValueType.of
  cases kind : field.kind with
  | single name =>
    obtain ⟨target,known,rfl⟩ := sound.target member inside (by rw [kind]; rfl)
    exact sound.edge_iff related classes known value
  | list name =>
    obtain ⟨target,known,rfl⟩ := sound.target member inside (by rw [kind]; rfl)
    exact sound.edges_iff related classes known value
  | primitive primitive =>
    constructor
    · rintro ⟨data,typed,shown⟩
      cases primitive <;> obtain ⟨held,rfl,_⟩ := typed <;> cases shown <;>
        exact ⟨⟨by first | trivial | simp_all [Value.ShapedAs],by simp [FieldKind.target?]⟩,
          by simp [ToLeaves,Value.nodeIds]⟩
    · rintro ⟨fits,_⟩
      have shape := fits.shape
      cases primitive <;> cases value <;> first
        | exact shape.elim
        | exact ⟨_,⟨_,rfl⟩,rfl⟩
        | exact ⟨_,⟨_,rfl,shape.symm⟩,rfl⟩

end NodeModel.Source
