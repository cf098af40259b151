import NodeModel.Proofs.Arena.Safety
import NodeModel.Proofs.Source.Conformity

/-! The methods that only read: getters give what the arena gives, and the children are visited in
the order of the arena. -/
namespace NodeModel.Source

open Arena (NodeId Node Value initialSlot initialSlot_fits)

variable {model : Model} {cls : Model.Class} {heap : Array Object} {nodes : Array Node}
  {memory : Memory} {context : Context} {scope : Scope}

theorem field?_eq_some (lists : cls.Consistent) {field : Model.Field}
    (inside : field ∈ cls.fields) : cls.field? field.name = some field :=
  find?_of_mem Model.Field.name inside fun _ other =>
    List.inj_on_of_nodup_map lists.names other inside

theorem filterMap_field? (lists : cls.Consistent) {fields : List Model.Field}
    (inside : ∀ field ∈ fields, field ∈ cls.fields) :
    (fields.filterMap fun field => cls.field? field.name) = fields :=
  (List.filterMap_congr fun field listed => field?_eq_some lists (inside field listed)).trans
    List.filterMap_some

def paramOf (model : Model) (field : Model.Field) : Param :=
  ⟨field.name,.of model field,field.policy.optional⟩

theorem ClassItem.params_of (lists : cls.Consistent) :
    (ClassItem.of model cls).params =
      (cls.fields.filter (·.policy.bound)).map (paramOf model) := by
  simp only [ClassItem.of,lists.params,List.filterMap_map,Function.comp_def]
  rw [filterMap_field? lists fun field listed => List.mem_of_mem_filter listed]
  rfl

theorem ClassItem.children_of (lists : cls.Consistent) :
    (ClassItem.of model cls).children = (cls.fields.filter fun field =>
      field.policy.visitable && field.kind.isReference).map .of := by
  simp only [ClassItem.of,lists.traversal,List.filterMap_map,Function.comp_def]
  rw [filterMap_field? lists fun field listed => List.mem_of_mem_filter listed]

theorem ClassItem.clones_of (lists : cls.Consistent) :
    (ClassItem.of model cls).clones = cls.fields.map fun field =>
      ⟨field.name,cloneExpr field field.step⟩ := by
  simp only [ClassItem.of,lists.cloneRules,List.filterMap_map,Function.comp_def]
  rw [← List.filterMap_eq_map]
  refine List.filterMap_congr fun field inside => ?_
  rw [field?_eq_some lists inside]
  rfl

theorem Sound.item_of (sound : Sound model) (member : cls ∈ model.classes) :
    (SourceFile.of model).class? cls.name = some (.of model cls) := by
  have found := sound.class?_eq_some member
  unfold Model.class? at found
  unfold SourceFile.class? SourceFile.of
  rw [List.find?_map]
  exact congrArg (Option.map (ClassItem.of model)) found

theorem initialSlot_of_bound (lists : cls.Consistent) {field : Model.Field}
    (inside : field ∈ cls.fields) (bound : field.policy.bound = true) :
    initialSlot field = none := by
  rw [initialSlot,lists.defaults field inside,if_pos bound]
  rfl

theorem initialSlot_of_deferred (lists : cls.Consistent) {field : Model.Field}
    (inside : field ∈ cls.fields) (deferred : field.policy.bound = false) :
    initialSlot field = if field.policy.optional then none
      else Value.ofDefault (.sentinel field.kind) := by
  rw [initialSlot,lists.defaults field inside,deferred]
  cases field.policy.optional <;> rfl

theorem storage_of_deferred {field : Model.Field} (deferred : field.policy.bound = false) :
    Storage.of field = .cell := by
  simp [Storage.of,deferred]

theorem upgrade_yields {id : NodeId} {object : Object} (alive : memory.heap[id]? = some object) :
    Yields (Method.act context .upgrade (.option (some (.weak id)))) memory
      (.option (some (.strong id))) memory := by
  have reads : Yields (getThe Memory : Action Memory) memory memory memory := rfl
  refine reads.bind ?_
  rw [alive]
  rfl

theorem storage_ne_cell {field : Model.Field} (bound : field.policy.bound = true) :
    Storage.of field ≠ .cell := by
  rw [Storage.of,bound]
  simp only [Bool.not_true,Bool.false_eq_true,if_false]
  split <;> simp

/-- There is no external value by default. -/
theorem initialSlot_of_external (lists : cls.Consistent) {field : Model.Field}
    (inside : field ∈ cls.fields) {type : String}
    (kind : field.kind = .primitive (.external type)) : initialSlot field = none := by
  cases bound : field.policy.bound with
  | true => exact initialSlot_of_bound lists inside bound
  | false =>
    rw [initialSlot_of_deferred lists inside bound,kind]
    split <;> rfl

/-- Reading what is held in the form of the getter changes nothing. -/
theorem Yields.same {method : Method} {contents : Option Data}
    (done : method.act context (.option contents) = Pure.pure (.option contents)) :
    Yields (method.act context (.option contents)) memory (.option contents) memory := by
  rw [done]
  rfl

/-- What a getter makes of a filled cell. -/
theorem Getter.yields_filled {field : Model.Field} {data : Data}
    (typed : HasType (.of model) memory.heap (.of model field) data)
    (held : scope.members.lookup field.name = some (.cell (some data))) :
    ∃ result, Yields (((Getter.of model field).expr field.name).act context scope) memory result
      memory ∧ result.contents = data.value? := by
  have got : Yields (((Expr.member field.name).call .get).act context scope) memory
      (.option (some data)) memory :=
    Expr.call_yields (Expr.member_yields held memory) rfl
  unfold ValueType.of at typed
  unfold Getter.of
  cases kind : field.kind with
  | single target =>
    rw [kind] at typed
    obtain ⟨id,object,rfl,alive,_⟩ := typed
    cases weak : isWeak field with
    | false =>
      rw [weak] at got
      exact ⟨_,got,rfl⟩
    | true =>
      rw [weak] at got
      exact ⟨_,Expr.call_yields got (upgrade_yields alive),rfl⟩
  | list target =>
    rw [kind] at typed
    obtain ⟨items,rfl,_⟩ := typed
    cases field.policy.optional with
    | false => exact ⟨_,Expr.unwrapOr_yields (Expr.call_yields got (.same rfl)) _,rfl⟩
    | true => exact ⟨_,got,rfl⟩
  | primitive primitive =>
    rw [kind] at typed
    cases primitive with
    | external name =>
      obtain ⟨ref,rfl,_⟩ := typed
      exact ⟨_,got,rfl⟩
    | _ =>
      obtain ⟨value,rfl⟩ := typed
      cases field.policy.optional with
      | false => exact ⟨_,Expr.unwrapOr_yields (Expr.call_yields got (.same rfl)) _,rfl⟩
      | true => exact ⟨_,Expr.call_yields got (.same rfl),rfl⟩

/-- What a getter makes of an empty cell: the fallback is the default of the field. -/
theorem Getter.yields_empty (lists : cls.Consistent) {field : Model.Field}
    (inside : field ∈ cls.fields) (deferred : field.policy.bound = false)
    (held : scope.members.lookup field.name = some (.cell none)) :
    ∃ result, Yields (((Getter.of model field).expr field.name).act context scope) memory result
      memory ∧ result.contents = initialSlot field := by
  have got : Yields (((Expr.member field.name).call .get).act context scope) memory
      (.option none) memory :=
    Expr.call_yields (Expr.member_yields held memory) rfl
  rw [initialSlot_of_deferred lists inside deferred]
  unfold Getter.of
  cases kind : field.kind with
  | single target =>
    cases isWeak field <;> cases field.policy.optional
    case false.false | false.true => exact ⟨_,got,rfl⟩
    case true.false | true.true => exact ⟨_,Expr.call_yields got (.same rfl),rfl⟩
  | list target =>
    cases field.policy.optional with
    | false => exact ⟨_,Expr.unwrapOr_yields (Expr.call_yields got (.same rfl)) _,rfl⟩
    | true => exact ⟨_,got,rfl⟩
  | primitive primitive =>
    cases primitive with
    | external name => cases field.policy.optional <;> exact ⟨_,got,rfl⟩
    | _ =>
      cases field.policy.optional with
      | false => exact ⟨_,Expr.unwrapOr_yields (Expr.call_yields got (.same rfl)) _,rfl⟩
      | true => exact ⟨_,Expr.call_yields got (.same rfl),rfl⟩

/-- The getter of a deferred field gives the contents of the slot, the default included. -/
theorem Accessor.read_yields {object : Object} {node : Node}
    (stands : object.StandsFor model memory.heap node) (lists : node.cls.Consistent)
    {position : Nat} {field : Model.Field} (atField : node.cls.fields[position]? = some field)
    (deferred : field.policy.bound = false) :
    ∃ result, Yields ((Accessor.of model field).read context object) memory result memory ∧
      result.contents = node.slot position := by
  obtain ⟨data,held,represents⟩ := stands.lookup lists atField
  have cell := storage_of_deferred deferred
  generalize node.slot position = slot, node.isAssigned position = flag at represents ⊢
  cases represents with
  | plain storage => simp [cell] at storage
  | option storage => simp [cell] at storage
  | empty =>
    exact Getter.yields_empty lists (List.mem_of_getElem? atField) deferred held
  | filled _ typed shown =>
    rw [← shown]
    exact Getter.yields_filled typed held

theorem mem_leaves_of {cls : Model.Class} (member : cls ∈ model.classes)
    (leaf : cls.isLeaf = true) : (SourceFile.of model).leaves.contains cls.name = true :=
  List.contains_iff_mem.mpr (List.mem_map_of_mem (List.mem_filter.mpr ⟨member,leaf⟩))

/-- What stands behind an edge is alive and of a class that the edge can lead to. -/
theorem Sound.behind_yields (sound : Sound model) (related : Related model memory.heap nodes)
    (classes : Classes model nodes) (leaves : context.leaves = (SourceFile.of model).leaves)
    {target : Model.Class} (known : target ∈ model.classes) {weak : Bool} {id : NodeId}
    (typed : IsEdge (.of model) memory.heap weak (.of model target.name) (edge weak id)) :
    ∃ object, memory.heap[id]? = some object ∧
      Yields (context.behind id) memory object memory := by
  obtain ⟨node,atId,_,leaf⟩ := (sound.isEdge_iff related classes known).mp typed
  obtain ⟨object,found,stands⟩ := related.objects id node atId
  have listed : context.leaves.contains object.cls = true := by
    rw [leaves,stands.cls]
    exact mem_leaves_of (classes id node atId) leaf
  have reads : Yields (getThe Memory : Action Memory) memory memory memory := rfl
  refine ⟨object,found,reads.bind ((Yields.lift found memory).bind ?_)⟩
  rw [if_pos listed]
  rfl

theorem Sound.visit_yields (sound : Sound model) (related : Related model memory.heap nodes)
    (classes : Classes model nodes) (leaves : context.leaves = (SourceFile.of model).leaves)
    {target : Model.Class} (known : target ∈ model.classes) {loop : ChildLoop} {id : NodeId}
    (typed : IsEdge (.of model) memory.heap loop.weak (.of model target.name)
      (edge loop.weak id)) :
    Yields (loop.visit context (edge loop.weak id)) memory [id] memory := by
  obtain ⟨object,found,behind⟩ := sound.behind_yields related classes leaves known typed
  have visited : Yields (do let _ ← context.behind id; return [id]) memory [id] memory :=
    behind.bind (.pure _ _)
  unfold ChildLoop.visit
  cases weak : loop.weak with
  | false => simpa [edge,weak] using visited
  | true =>
    have reads : Yields (getThe Memory : Action Memory) memory memory memory := rfl
    simp only [edge,if_true,Bool.not_true,Bool.false_eq_true,if_false]
    refine reads.bind ?_
    simpa [found] using visited

def Data.edges : Data → List Data
  | .vec items => items
  | data => [data]

/-- Typed data of a reference lead to the nodes of their value. -/
theorem HasType.edges {field : Model.Field} {target : String}
    (reference : field.kind.target? = some target) {data : Data}
    (typed : HasType (.of model) heap (.of model field) data) {value : Value}
    (shown : data.value? = some value) :
    (∀ item ∈ data.edges, IsEdge (.of model) heap (isWeak field) (.of model target) item) ∧
      data.edges.filterMap Data.target? = value.nodeIds := by
  unfold ValueType.of at typed
  cases kind : field.kind with
  | single name =>
    rw [kind] at reference typed
    cases reference
    obtain ⟨id,rfl⟩ := IsEdge.eq typed
    rw [value?_edge] at shown
    cases shown
    have single : (edge (isWeak field) id).edges = [edge (isWeak field) id] := by
      cases isWeak field <;> rfl
    rw [single]
    exact ⟨List.forall_mem_singleton.mpr typed,filterMap_edges (isWeak field) [id]⟩
  | list name =>
    rw [kind] at reference typed
    cases reference
    obtain ⟨items,rfl,each⟩ := typed
    cases shown
    exact ⟨each,rfl⟩
  | primitive => simp [kind,FieldKind.target?] at reference

/-- What a member holds when its contents are stored in one of the three ways. -/
def Storage.stored : Storage → Option Data → Option Data
  | .plain, contents => contents
  | .option, contents => some (.option contents)
  | .cell, contents => some (.cell contents)

/-- Where the slot came by default there are no children. -/
theorem nodeIds_initialSlot (lists : cls.Consistent) {field : Model.Field}
    (inside : field ∈ cls.fields) : ((initialSlot field).map Value.nodeIds).getD [] = [] := by
  cases initial : initialSlot field with
  | none => rfl
  | some value =>
    have fits : value.Fits (fun _ _ => True) #[] field.kind ∧ value.nodeIds = [] :=
      initialSlot_fits lists inside #[] initial
    exact fits.2

/-- The contents of a member, and the children in them. -/
theorem Represents.contents (lists : cls.Consistent) {field : Model.Field}
    (inside : field ∈ cls.fields) {data : Data} {slot : Option Value} {flag : Bool}
    (represents : Represents model heap field data slot flag) :
    ∃ contents, (Storage.of field).stored contents = some data ∧
      (∀ held ∈ contents, HasType (.of model) heap (.of model field) held) ∧
      ((contents.bind Data.value?).map Value.nodeIds).getD [] =
        (slot.map Value.nodeIds).getD [] := by
  cases represents with
  | plain storage typed shown =>
    exact ⟨some data,by rw [storage]; rfl,by simpa using typed,by simp [shown]⟩
  | @option contents _ storage typed => exact ⟨contents,by rw [storage]; rfl,typed,rfl⟩
  | empty storage =>
    exact ⟨none,by rw [storage]; rfl,by simp,(nodeIds_initialSlot lists inside).symm⟩
  | @filled held _ storage typed shown =>
    exact ⟨some held,by rw [storage]; rfl,by simpa using typed,by simp [shown]⟩

section

variable {field : Model.Field} {contents : Option Data} {target : String}

theorem edges_of_single (kind : field.kind = .single target)
    (typed : ∀ held ∈ contents, HasType (.of model) heap (.of model field) held) :
    contents.toList.flatMap Data.edges = contents.toList := by
  cases contents with
  | none => rfl
  | some held =>
    have edge := typed held rfl
    rw [ValueType.of,kind] at edge
    obtain ⟨id,rfl⟩ := IsEdge.eq edge
    cases isWeak field <;> rfl

theorem flatten_yields (kind : field.kind = .list target)
    (typed : ∀ held ∈ contents, HasType (.of model) heap (.of model field) held) :
    Yields (Method.act context .flatten (.iterator contents.toList)) memory
      (.iterator (contents.toList.flatMap Data.edges)) memory := by
  cases contents with
  | none => rfl
  | some held =>
    have list := typed held rfl
    rw [ValueType.of,kind] at list
    obtain ⟨items,rfl,_⟩ := list
    simp only [Option.toList_some,List.flatMap_cons,List.flatMap_nil,Data.edges]
    rfl

/-- Whatever the storage, a loop over children runs over the edges in the contents. -/
theorem childSource_yields (reference : field.kind.target? = some target) {data : Data}
    (stored : (Storage.of field).stored contents = some data)
    (typed : ∀ held ∈ contents, HasType (.of model) heap (.of model field) held)
    (held : scope.members.lookup field.name = some data) :
    Yields ((childSource field).act context scope) memory
      (.iterator (contents.toList.flatMap Data.edges)) memory := by
  have this : Yields ((Expr.member field.name).act context scope) memory data memory :=
    Expr.member_yields held memory
  unfold childSource
  cases storage : Storage.of field with
  | plain =>
    rw [storage] at stored
    cases stored
    cases kind : field.kind with
    | single name =>
      rw [edges_of_single kind typed]
      exact Expr.apply_yields this (.pure _ _)
    | list name =>
      have list := typed data rfl
      rw [ValueType.of,kind] at list
      obtain ⟨items,rfl,_⟩ := list
      have listed : Yields (((Expr.member field.name).call .iter).act context scope) memory
          (.iterator items) memory := Expr.call_yields this rfl
      rw [Option.toList_some,List.flatMap_singleton]
      exact listed
    | primitive => simp [kind,FieldKind.target?] at reference
  | option =>
    rw [storage] at stored
    cases stored
    have listed : Yields (((Expr.member field.name).call .iter).act context scope) memory
        (.iterator contents.toList) memory := Expr.call_yields this rfl
    cases kind : field.kind with
    | single name =>
      rw [edges_of_single kind typed]
      exact listed
    | list name => exact Expr.call_yields listed (flatten_yields kind typed)
    | primitive => simp [kind,FieldKind.target?] at reference
  | cell =>
    rw [storage] at stored
    cases stored
    have got : Yields (((Expr.member field.name).call .get).act context scope) memory
        (.option contents) memory := Expr.call_yields this rfl
    have listed : Yields ((((Expr.member field.name).call .get).call .intoIter).act context scope)
        memory (.iterator contents.toList) memory := Expr.call_yields got rfl
    cases kind : field.kind with
    | single name =>
      rw [edges_of_single kind typed]
      exact listed
    | list name => exact Expr.call_yields listed (flatten_yields kind typed)
    | primitive => simp [kind,FieldKind.target?] at reference

end

theorem Yields.mapM {α β : Type} {action : α → Action β} {items : List α} {results : List β}
    (each : List.Forall₂ (fun item result => Yields (action item) memory result memory) items
      results) : Yields (items.mapM action) memory results memory := by
  induction each with
  | nil => exact .pure _ _
  | cons first _ rest =>
    rw [List.mapM_cons]
    exact first.bind (rest.bind (.pure _ _))

/-- The loop over one field visits the children in its slot. -/
theorem Sound.visits_yields (sound : Sound model) (related : Related model memory.heap nodes)
    (classes : Classes model nodes) (leaves : context.leaves = (SourceFile.of model).leaves)
    {object : Object} {node : Node} (member : node.cls ∈ model.classes)
    (stands : object.StandsFor model memory.heap node) {position : Nat} {field : Model.Field}
    (atField : node.cls.fields[position]? = some field)
    (reference : field.kind.isReference = true) :
    Yields ((ChildLoop.of field).visits context object) memory
      (((node.slot position).map Value.nodeIds).getD []) memory := by
  have lists := sound.consistent.classes node.cls member
  have inside := List.mem_of_getElem? atField
  obtain ⟨name,named⟩ := Option.isSome_iff_exists.mp reference
  obtain ⟨target,known,rfl⟩ := sound.target member inside named
  obtain ⟨data,held,represents⟩ := stands.lookup lists atField
  obtain ⟨contents,stored,typed,children⟩ := represents.contents lists inside
  have edges : ∀ item ∈ contents.toList.flatMap Data.edges,
      IsEdge (.of model) memory.heap (isWeak field) (.of model target.name) item := by
    intro item listed
    obtain ⟨held,present,within⟩ := List.mem_flatMap.mp listed
    have typed := typed held (Option.mem_toList.mp present)
    obtain ⟨value,shown⟩ := typed.value
    exact (typed.edges named shown).1 item within
  have ids : (contents.toList.flatMap Data.edges).filterMap Data.target? =
      ((node.slot position).map Value.nodeIds).getD [] := by
    rw [← children]
    cases contents with
    | none => rfl
    | some held =>
      obtain ⟨value,shown⟩ := (typed held rfl).value
      simpa [shown] using ((typed held rfl).edges named shown).2
  refine (childSource_yields named stored typed held).bind ?_
  have each := edges_of_typed edges
  rw [ids] at each
  rw [each] at edges ⊢
  generalize ((node.slot position).map Value.nodeIds).getD [] = children at edges ⊢
  have visited : Yields ((children.map (edge (isWeak field))).mapM
      ((ChildLoop.of field).visit context)) memory (children.map fun id => [id]) memory := by
    refine .mapM (List.forall₂_map_left_iff.mpr (List.forall₂_map_right_iff.mpr ?_))
    refine List.forall₂_same.mpr fun id listed => ?_
    exact sound.visit_yields related classes leaves known (edges _ (List.mem_map_of_mem listed))
  have all : (children.map fun id => [id]).flatten = children :=
    (List.flatMap_def ..).symm.trans (List.flatMap_singleton' children)
  have joined : Yields (do
      return (← (children.map (edge (isWeak field))).mapM
        ((ChildLoop.of field).visit context)).flatten) memory
      (children.map fun id => [id]).flatten memory := visited.bind (.pure _ _)
  rwa [all] at joined

theorem mapM_along {α β ε : Type} {left : α → Except ε β} {right : α → Action β} (items : List α)
    (each : ∀ item ∈ items, ∃ result, left item = .ok result ∧
      Yields (right item) memory result memory) :
    ∃ results, items.mapM left = .ok results ∧ Yields (items.mapM right) memory results memory := by
  induction items with
  | nil => exact ⟨[],rfl,.pure _ _⟩
  | cons item items ih =>
    obtain ⟨first,given,yielded⟩ := each item List.mem_cons_self
    obtain ⟨rest,given',yielded'⟩ := ih fun other member =>
      each other (List.mem_cons_of_mem _ member)
    refine ⟨first :: rest,?_,?_⟩
    · rw [List.mapM_cons,given,given']
      rfl
    · rw [List.mapM_cons]
      exact yielded.bind (yielded'.bind (.pure _ _))

/-- The children of an object, in the order in which the arena has them. -/
theorem Sound.children_yield (sound : Sound model) {arena : Arena}
    (related : Related model memory.heap arena.nodes) (classes : Classes model arena.nodes)
    (leaves : context.leaves = (SourceFile.of model).leaves) {id : NodeId} {node : Node}
    (found : arena.nodes[id]? = some node) {object : Object}
    (stands : object.StandsFor model memory.heap node) :
    ∃ children, arena.children id = .ok children ∧
      Yields ((ClassItem.of model node.cls).visits context object) memory children memory := by
  have member := classes id node found
  have lists := sound.consistent.classes node.cls member
  have each : ∀ field ∈ node.cls.fields.filter fun field =>
      field.policy.visitable && field.kind.isReference, ∃ ids,
      (do let place ← Arena.locate node.cls field.name
          return ((node.slot place.1).map Value.nodeIds).getD [] : Except Arena.Fault _) = .ok ids ∧
      Yields ((ChildLoop.of field).visits context object) memory ids memory := by
    intro field visited
    obtain ⟨inside,reference⟩ := List.mem_filter.mp visited
    obtain ⟨position,atField⟩ := List.getElem?_of_mem inside
    refine ⟨_,?_,sound.visits_yields related classes leaves member stands atField
      (Bool.and_eq_true _ _ ▸ reference).2⟩
    simp only [(Arena.locate_eq_ok_iff lists.names).mpr ⟨atField,rfl⟩]
    rfl
  obtain ⟨edges,given,yielded⟩ := mapM_along _ each
  refine ⟨edges.flatten,?_,?_⟩
  · rw [Arena.children,Arena.node_eq_ok_iff.mpr found]
    simp only [bind,Except.bind,lists.traversal,List.mapM_map,Function.comp_def]
    exact congrArg (· >>= fun edges => pure edges.flatten) given
  · unfold ClassItem.visits
    rw [ClassItem.children_of lists,List.mapM_map]
    exact yielded.bind (.pure _ _)

end NodeModel.Source
