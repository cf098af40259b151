import NodeModel.Proofs.Source.Assignment
import NodeModel.Proofs.Source.Cloning
import NodeModel.Proofs.Source.Construction
import NodeModel.Proofs.Source.Dispatch
import NodeModel.Proofs.Source.Fuel

/-! The emitted source simulates the arena: from a heap and an arena that agree, every emitted
method does what the operation of the arena does, and they agree again afterwards. The methods are
those on the lines of the emitted file. -/
namespace NodeModel.Source

open Arena (NodeId Node Value Copier Progress Gives cloneNode cloneSlot Operation Reached)

variable {model : Model} {memory : Memory} {arena : Arena}

/-- The clone expression of a field does to a member what the arena does to the slot, wherever the
two stand. -/
def FieldClones (model : Model) (field : Model.Field) : Prop :=
  ∀ ⦃copier fuel memory progress progress' scope data slot slot' flag⦄,
    (∀ handed ref, (copier handed ref).type = ref.type) → Follows model memory progress →
    scope.members.lookup field.name = some data →
    Represents model memory.heap field data slot flag →
    Gives (cloneSlot copier (cloneNode copier fuel) field field.step slot) progress slot'
      progress' →
    Produces model copier fuel scope (cloneExpr field field.step) memory progress' field slot'
      (flag && field.step != .reset)

structure ClassItem.Simulates (model : Model) (memory : Memory) (arena : Arena) (id : NodeId)
    (object : Object) (item : ClassItem) : Prop where
  members : List.Forall₂ (StructField.Holds (.of model) memory.heap) item.fields object.members
  get : ∀ accessor ∈ item.accessors, ∀ context, ∃ data,
    Yields (accessor.read context object) memory data memory ∧
    arena.get id accessor.field = .ok data.contents
  set : ∀ accessor ∈ item.accessors, ∀ context argument,
    accessor.setter.Accepts (.of model) memory.heap argument → ∃ value outcome,
      argument.value? = some value ∧
      Yields (accessor.assign context object argument) memory outcome memory ∧
      SameAssignment model memory.heap id outcome (arena.set id accessor.field value)
  children : ∀ context : Context, context.leaves = (SourceFile.of model).leaves → ∃ children,
    Yields (item.visits context object) memory children memory ∧
    arena.children id = .ok children
  /-- Clones nest no deeper than the number of the node. -/
  clone : ∀ copier : Copier, (∀ handed ref, (copier handed ref).type = ref.type) →
    ∃ clone after nodes,
      (∀ fuel, id < fuel → Yields ((SourceFile.of model).clone copier fuel object)
        { heap := memory.heap } clone after) ∧
      arena.clone copier id = ⟨.ok after.heap.size,{ arena with nodes },after.copied⟩ ∧
      Related model (after.heap.push clone) nodes

/-- The emitted methods against the operations of the arena. -/
structure Simulates (model : Model) (memory : Memory) (arena : Arena) : Prop where
  /-- The methods that run have their bodies in the emitted file. -/
  written : ∃ lines, NodeModel.Target.source.files model =
      [⟨"nodes.rs",String.join (lines.map (· ++ "\n"))⟩] ∧
    (∀ item ∈ (SourceFile.of model).classes, item.WrittenIn lines) ∧
    ∀ family ∈ (SourceFile.of model).families, family.WrittenIn lines
  /-- The types of the emitted source, taken by the classes that they admit, admit the values that
  the arena admits as far as these refer to leaves. This is less than what a compiler checks, which
  also tells a leaf that was allocated as its struct from one that was allocated as a variant of a
  family: objects do not record which of the two they are. -/
  conforming : ∀ cls ∈ model.classes, ∀ field ∈ cls.fields, ∀ value,
    (∃ data, HasType (.of model) memory.heap (.of model field) data ∧
      data.value? = some value) ↔
    arena.checkValue cls field value = .ok () ∧ ToLeaves arena.nodes value
  construct : ∀ item ∈ (SourceFile.of model).classes, ∀ context arguments,
    List.Forall₂ (Param.Accepts (.of model) memory.heap) item.params arguments →
    ∃ object grown, Yields (item.construct context arguments) memory object memory ∧
      arena.construct item.name (arguments.map Data.contents) = .ok (memory.heap.size,grown) ∧
      Related model (memory.heap.push object) grown.nodes
  objects : ∀ id object, memory.heap[id]? = some object → ∃ node item,
    arena.nodes[id]? = some node ∧ (SourceFile.of model).class? object.cls = some item ∧
    item.accessors.map (·.field) = node.cls.deferredFields.map (·.name) ∧
    item.Simulates model memory arena id object
  dispatch : ∀ target ∈ model.classes, ∀ weak data,
    IsEdge (.of model) memory.heap weak (.of model target.name) data → ∃ id object item,
      data = edge weak id ∧
      Dispatches (.of model) memory (.of model target.name) weak id object item
  expressions : ∀ cls ∈ model.classes, (ClassItem.of model cls).clones =
      (cls.fields.map fun field => ⟨field.name,cloneExpr field field.step⟩) ∧
    ∀ field ∈ cls.fields, FieldClones model field

theorem Sound.object_simulates (sound : Sound model)
    (valid : Arena.AllValid model (fun name ref => name = ref.type) arena.nodes)
    (related : Related model memory.heap arena.nodes) {id : NodeId} {object : Object}
    (found : memory.heap[id]? = some object) {node : Node} (atId : arena.nodes[id]? = some node)
    (stands : object.StandsFor model memory.heap node) :
    (ClassItem.of model node.cls).Simulates model memory arena id object := by
  have classes : Classes model arena.nodes := fun id node found => (valid id node found).cls
  have member := classes id node atId
  have lists := sound.consistent.classes node.cls member
  constructor
  case members => exact stands.holds
  case get =>
    intro accessor listed context
    obtain ⟨field,deferred,rfl⟩ := List.mem_map.mp listed
    obtain ⟨inside,unbound⟩ := List.mem_filter.mp deferred
    obtain ⟨position,atField⟩ := List.getElem?_of_mem inside
    obtain ⟨data,read,same⟩ := Accessor.read_yields stands lists atField (by simpa using unbound)
    refine ⟨data,read,?_⟩
    rw [same]
    exact Arena.get_eq_ok sound.consistent valid atId atField
  case set =>
    intro accessor listed context argument accepted
    obtain ⟨field,deferred,rfl⟩ := List.mem_map.mp listed
    obtain ⟨inside,unbound⟩ := List.mem_filter.mp deferred
    exact sound.assign_yields context valid related found atId stands inside
      (by simpa using unbound) accepted
  case children =>
    intro context leaves
    obtain ⟨children,given,yielded⟩ :=
      sound.children_yield related classes leaves atId stands
    exact ⟨children,yielded,given⟩
  case clone =>
    intro copier keeps
    obtain ⟨copy,after,run,cloned,_⟩ := Arena.clone_existing sound.consistent valid copier
      (Arena.lt_size_of_found atId)
    have follows : Follows model { heap := memory.heap } ⟨arena.nodes,[]⟩ :=
      ⟨related,classes,rfl⟩
    obtain ⟨clone,memory',yields,_,rfl,advances⟩ :=
      sound.clonesAlike keeps (id + 1) follows found (run (id + 1) (Nat.lt_succ_self id))
    refine ⟨clone,memory',after.nodes,fun fuel enough => ?_,?_,advances.follows.related⟩
    · exact SourceFile.clone_below _ copier enough object yields
    · rw [cloned,← advances.follows.copied]

theorem Sound.simulates (sound : Sound model) (same : arena.model = model)
    (valid : Arena.AllValid model (fun name ref => name = ref.type) arena.nodes)
    (related : Related model memory.heap arena.nodes) : Simulates model memory arena := by
  have classes : Classes model arena.nodes := fun id node found => (valid id node found).cls
  constructor
  case written =>
    refine ⟨_,rfl,fun item listed => ClassItem.written listed,fun family listed => ?_⟩
    obtain ⟨cls,category,rfl⟩ := List.mem_map.mp listed
    exact FamilyItem.written (filled_of_mem (List.mem_of_mem_filter category)) listed
  case conforming =>
    intro cls member field inside value
    rw [sound.typed_iff related classes member inside,Arena.checkValue_eq_ok_iff]
  case construct =>
    intro item listed context arguments accepted
    obtain ⟨cls,member,rfl⟩ := List.mem_map.mp listed
    exact sound.construct_yields context same related classes member accepted
  case objects =>
    intro id object found
    obtain ⟨node,atId,stands⟩ := related.found found
    refine ⟨node,.of model node.cls,atId,?_,?_,
      sound.object_simulates valid related found atId stands⟩
    · rw [stands.cls]
      exact sound.item_of (classes id node atId)
    · exact List.map_map ..
  case dispatch =>
    intro target known weak data typed
    exact sound.dispatches related classes known typed
  case expressions =>
    intro cls member
    have lists := sound.consistent.classes cls member
    refine ⟨ClassItem.clones_of lists,fun field inside => ?_⟩
    intro copier fuel memory progress progress' scope data slot slot' flag keeps follows held
      represents gives
    exact sound.cloneExpr_produces (sound.clonesAlike keeps fuel) keeps member inside follows held
      represents gives

/-- The heaps that come up in runs of the emitted methods on arguments of the right types. -/
inductive Performed (model : Model) : Array Object → Prop where
  | start : Performed model #[]
  | construct {heap : Array Object} {item : ClassItem} {object : Object} (name : String)
      (context : Context) (arguments : List Data) (earlier : Performed model heap)
      (known : (SourceFile.of model).class? name = some item)
      (accepted : List.Forall₂ (Param.Accepts (.of model) heap) item.params arguments)
      (yields : Yields (item.construct context arguments) { heap } object { heap }) :
      Performed model (heap.push object)
  | assign {heap : Array Object} {object changed : Object} {item : ClassItem}
      {accessor : Accessor} (id : NodeId) (context : Context) (argument : Data)
      (earlier : Performed model heap) (found : heap[id]? = some object)
      (known : (SourceFile.of model).class? object.cls = some item)
      (listed : accessor ∈ item.accessors)
      (accepted : accessor.setter.Accepts (.of model) heap argument)
      (yields : Yields (accessor.assign context object argument) { heap } (.ok changed) { heap }) :
      Performed model (heap.setIfInBounds id changed)
  | clone {heap : Array Object} {object clone : Object} {after : Memory} (id : NodeId)
      (copier : Copier) (fuel : Nat) (earlier : Performed model heap)
      (found : heap[id]? = some object)
      (keeps : ∀ handed ref, (copier handed ref).type = ref.type)
      (yields : Yields ((SourceFile.of model).clone copier fuel object) { heap } clone after) :
      Performed model (after.heap.push clone)

/-- One method call keeps heap and arena in agreement: what it did, the arena can do. -/
theorem Performed.related (sound : Sound model) {heap : Array Object}
    (performed : Performed model heap) :
    ∃ arena, Reached model Operation.KeepsTypes arena ∧ Related model heap arena.nodes := by
  have simulates {heap : Array Object} {arena : Arena}
      (reached : Reached model Operation.KeepsTypes arena)
      (related : Related model heap arena.nodes) : Simulates model { heap } arena :=
    sound.simulates reached.model_eq (reached.valid sound.consistent
      (fun _ _ same => same) fun _ typed => Operation.KeepsTypes.respects typed) related
  induction performed with
  | start => exact ⟨.empty model,⟨[],by simp,rfl⟩,rfl,by simp [Arena.empty]⟩
  | @construct _ item _ _ _ arguments _ known accepted yields ih =>
    obtain ⟨arena,reached,related⟩ := ih
    obtain ⟨object,grown,yields',done,related⟩ := (simulates reached related).construct _
      (List.mem_of_find?_eq_some known) _ _ accepted
    obtain ⟨rfl,_⟩ := yields.unique yields'
    have applied : arena.apply (.construct item.name (arguments.map Data.contents)) = grown := by
      rw [Arena.apply,done]
    exact ⟨grown,reached.next applied trivial,related⟩
  | @assign _ object _ item accessor id _ _ _ found known listed accepted yields ih =>
    obtain ⟨arena,reached,related⟩ := ih
    obtain ⟨_,other,_,known',_,methods⟩ := (simulates reached related).objects id object found
    cases Option.some.inj (known.symm.trans known')
    obtain ⟨value,outcome,_,yields',same⟩ := methods.set accessor listed _ _ accepted
    obtain ⟨rfl,_⟩ := yields.unique yields'
    generalize done : arena.set id accessor.field value = result at same
    cases same with
    | @done _ next related =>
      have applied : arena.apply (.set id accessor.field value) = next := by
        rw [Arena.apply,done]
      exact ⟨next,reached.next applied trivial,related⟩
  | @clone _ object _ _ id copier _ _ found keeps yields ih =>
    obtain ⟨arena,reached,related⟩ := ih
    obtain ⟨_,_,_,_,_,methods⟩ := (simulates reached related).objects id object found
    obtain ⟨clone,after,nodes,yields',done,related⟩ := methods.clone copier keeps
    obtain ⟨rfl,rfl⟩ := SourceFile.clone_unique yields (yields' (id + 1) (Nat.lt_succ_self id))
    have applied : arena.apply (.clone id copier) = { arena with nodes } := by
      rw [Arena.apply,done]
    exact ⟨{ arena with nodes },reached.next applied keeps,related⟩

/-- From every heap that agrees with an arena over a resolved model, the emitted methods do what
the arena does. -/
theorem emitted_simulates {schema : Schema} {externals : NameSet}
    (resolved : schema.resolveWith externals = .ok model)
    (reached : Reached model Operation.KeepsTypes arena)
    (related : Related model memory.heap arena.nodes) : Simulates model memory arena := by
  have sound := Sound.of_resolved resolved
  have valid := reached.valid sound.consistent (fun _ _ same => same)
    fun _ typed => Operation.KeepsTypes.respects typed
  exact sound.simulates reached.model_eq valid related

def innerGroup : Object :=
  ⟨"Group",[("label",.text "a"),("members",.vec []),("first",.option none),("parent",.cell none),
    ("stamp",.cell none),("type",.external ⟨"Type",7⟩)]⟩

def outerGroup (parent : Option Data) : Object :=
  ⟨"Group",[("label",.text "b"),("members",.vec [.strong 0]),("first",.option (some (.strong 0))),
    ("parent",.cell parent),("stamp",.cell none),("type",.external ⟨"Type",7⟩)]⟩

/-- A group in another group, which has it for its parent as well. -/
def sampleHeap : Array Object := #[innerGroup,outerGroup (some (.weak 0))]

theorem sampleHeap_performed : Performed Arena.sampleModel sampleHeap := by
  let context : Context := ⟨[],fun _ ref => ref,fun _ => failure⟩
  have label (heap : Array Object) (text : String) :
      HasType (.of Arena.sampleModel) heap .text (.text text) := ⟨text,rfl⟩
  have type (heap : Array Object) :
      HasType (.of Arena.sampleModel) heap (.external "Type") (.external ⟨"Type",7⟩) :=
    ⟨_,rfl,rfl⟩
  have first : Performed Arena.sampleModel (#[].push innerGroup) := by
    refine .construct "Group" context [.text "a",.vec [],.option none,.external ⟨"Type",7⟩] .start
      rfl ?_ rfl
    have members : HasType (.of Arena.sampleModel) #[] (.edges false (.family "Item")) (.vec []) :=
      ⟨[],rfl,by simp⟩
    have absent : Param.Accepts (.of Arena.sampleModel) #[]
        ⟨"first",.edge false (.family "Item"),true⟩ (.option none) := ⟨none,rfl,by simp⟩
    exact .cons (label #[] "a") (.cons members (.cons absent (.cons (type #[]) .nil)))
  have inner : IsEdge (.of Arena.sampleModel) #[innerGroup] false (.family "Item") (.strong 0) :=
    ⟨0,innerGroup,rfl,rfl,_,List.mem_cons_self,rfl,List.mem_cons_self⟩
  have second : Performed Arena.sampleModel (#[innerGroup].push (outerGroup none)) := by
    refine .construct "Group" context [.text "b",.vec [.strong 0],.option (some (.strong 0)),
      .external ⟨"Type",7⟩] first rfl ?_ rfl
    have members : HasType (.of Arena.sampleModel) #[innerGroup] (.edges false (.family "Item"))
        (.vec [.strong 0]) := ⟨_,rfl,List.forall_mem_singleton.mpr inner⟩
    have present : Param.Accepts (.of Arena.sampleModel) #[innerGroup]
        ⟨"first",.edge false (.family "Item"),true⟩ (.option (some (.strong 0))) :=
      ⟨_,rfl,fun _ same => Option.some.inj same ▸ inner⟩
    exact .cons (label #[innerGroup] "b") (.cons members (.cons present
      (.cons (type #[innerGroup]) .nil)))
  have third : Performed Arena.sampleModel
      (#[innerGroup,outerGroup none].setIfInBounds 1 (outerGroup (some (.weak 0)))) := by
    refine .assign 1 context (.strong 0) second rfl rfl List.mem_cons_self ?_ rfl
    exact ⟨0,innerGroup,rfl,rfl,rfl⟩
  exact third

theorem emitted_simulates_sample :
    ∃ arena, Reached Arena.sampleModel Operation.KeepsTypes arena ∧
      Related Arena.sampleModel sampleHeap arena.nodes ∧
      Simulates Arena.sampleModel { heap := sampleHeap } arena := by
  obtain ⟨arena,reached,related⟩ :=
    sampleHeap_performed.related (.of_resolved Arena.sample_resolved)
  exact ⟨arena,reached,related,emitted_simulates Arena.sample_resolved reached related⟩

end NodeModel.Source
