import NodeModel.Proofs.Lookup
import NodeModel.Proofs.Source.Closure

/-! From the methods that run to the lines and types of the emitted file: their bodies are written
out there, objects have the members that their structs declare, and a method that is called through
the type of an edge is that of the object behind it, be the type a struct or an enum. -/
namespace NodeModel.Source

open Arena (NodeId Node Value)

/-- The struct of a class and its methods, written out of the expressions that run. Lines know a
field by its identifier, expressions by its name. -/
structure ClassItem.WrittenIn (item : ClassItem) (lines : List String) : Prop where
  struct : HasBlock lines s!"pub struct {item.name}" (item.fields.flatMap (·.lines))
  methods : ∃ methods, HasBlock lines s!"impl {item.name}" methods ∧
    HasBlock methods ("pub fn new(" ++ ", ".intercalate (item.params.map (·.text)) ++ ") -> Self")
      (braced "Self" (item.initials.map initialLine)) ∧
    (∀ accessor ∈ item.accessors,
      HasBlock methods s!"pub fn {accessor.getterName}(&self) -> {accessor.getter.type}"
        [(accessor.getter.expr accessor.field).render] ∧
      HasBlock methods (s!"pub fn {accessor.setterName}(&self, value: {accessor.setter.type}) " ++
          "-> Result<(), AlreadyAssigned>")
        [s!"self.{fieldIdent accessor.field}.set({accessor.setter.expr.render})" ++
            ".map_err(|_| AlreadyAssigned \x7b",
          "    class: Self::CLASS,",
          s!"    field: \"{accessor.field}\",",
          "\x7d)"]) ∧
    (∃ visit, HasBlock methods (childrenHead visit) (item.children.flatMap (·.lines))) ∧
    HasBlock methods "pub fn structural_clone(&self) -> Self"
      (braced "Self" (item.clones.map (·.line)))
  view : item.leaf = true → HasBlock lines s!"impl AsNodeRef for {item.name}"
    (braced "fn as_node_ref(&self) -> NodeRef<'_>" [s!"NodeRef::{item.name}(self)"])

/-- The enum of a category and its methods, with an arm for each variant. -/
structure FamilyItem.WrittenIn (family : FamilyItem) (lines : List String) : Prop where
  variants : HasBlock lines s!"pub enum {family.name}"
    (family.leaves.map fun leaf => s!"{leaf}({leaf}),")
  methods : ∃ methods, HasBlock lines s!"impl {family.name}" methods ∧
    HasBlock methods (childrenHead "visit") (braced "match self"
      (family.leaves.map fun leaf => s!"Self::{leaf}(node) => node.children(visit),")) ∧
    HasBlock methods "pub fn structural_clone(&self) -> Self" (braced "match self"
      (family.leaves.map fun leaf =>
        s!"Self::{leaf}(node) => Self::{leaf}(node.structural_clone()),"))
  view : HasBlock lines s!"impl AsNodeRef for {family.name}"
    (braced "fn as_node_ref(&self) -> NodeRef<'_>" (braced "match self"
      (family.leaves.map fun leaf => s!"Self::{leaf}(node) => NodeRef::{leaf}(node),")))

theorem ClassItem.written {file : SourceFile} {item : ClassItem} (member : item ∈ file.classes) :
    item.WrittenIn file.lines := by
  have inside := SourceFile.class_part member
  constructor
  case struct => exact item.hasStruct.within inside
  case view => exact fun leaf => (item.hasView leaf).within inside
  case methods =>
    refine ⟨_,item.hasMethods.within inside,constructorLines_part,fun accessor listed => ?_,
      ⟨_,childrenLines_part⟩,List.infix_append_right.trans cloneLines_part⟩
    have accessorPart : accessor.lines <:+: item.methodLines :=
      (infix_flatMap listed _).trans accessorLines_part
    refine ⟨HasBlock.within ?_ accessorPart,HasBlock.within ?_ accessorPart⟩
    · iterate 3 apply List.infix_append_of_infix_left
      exact List.infix_append_right
    · apply List.infix_append_of_infix_left
      exact List.infix_append_right

theorem FamilyItem.written {file : SourceFile} (filled : file.classes ≠ []) {family : FamilyItem}
    (member : family ∈ file.families) : family.WrittenIn file.lines := by
  have inside := SourceFile.family_part filled member
  constructor
  case variants => exact family.hasEnum.within inside
  case methods =>
    exact ⟨_,family.hasMethods.within inside,family.hasChildren,List.infix_append_right⟩
  case view =>
    exact ((hasBlock_block _ _).within (List.infix_append_of_infix_left
      List.infix_append_right)).within inside

/-- A member of an object has the name and the type that the struct declares. -/
def StructField.Holds (file : SourceFile) (heap : Array Object) (field : StructField)
    (member : String × Data) : Prop :=
  member.1 = field.name ∧
    match field.storage with
    | .plain => HasType file heap field.type member.2
    | .option => ∃ contents, member.2 = .option contents ∧
        ∀ data ∈ contents, HasType file heap field.type data
    | .cell => ∃ contents, member.2 = .cell contents ∧
        ∀ data ∈ contents, HasType file heap field.type data

/-- The variant that a value of a type has: a struct has itself, an enum has one for each leaf. -/
def Target.variant? (file : SourceFile) (object : Object) : Target → Option String
  | .struct name => if object.cls = name then some name else none
  | .family name => do
    let family ← file.families.find? (·.cls == name)
    family.leaves.find? (· == object.cls)

/-- The node view that `as_node_ref` gives: the variant again, if such views have one. -/
def Target.view? (file : SourceFile) (object : Object) (target : Target) : Option String :=
  (target.variant? file object).filter file.leaves.contains

def Target.visits (file : SourceFile) (context : Context) (object : Object) (target : Target) :
    Action (List NodeId) := do
  let item ← liftM ((target.variant? file object).bind file.class?)
  item.visits context object

def Target.clone (file : SourceFile) (context : Context) (object : Object) (target : Target) :
    Action Object := do
  let item ← liftM ((target.variant? file object).bind file.class?)
  item.clone context object

/-- The methods of the type of an edge are those of the object behind it. -/
structure Dispatches (file : SourceFile) (memory : Memory) (target : Target) (weak : Bool)
    (id : NodeId) (object : Object) (item : ClassItem) : Prop where
  found : memory.heap[id]? = some object
  known : file.class? object.cls = some item
  view : target.view? file object = some object.cls
  children : ∀ context, target.visits file context object = item.visits context object
  clone : ∀ context, target.clone file context object = item.clone context object
  /-- A loop over the edge visits the object that is viewed. -/
  visited : ∀ (context : Context) (loop : ChildLoop), context.leaves = file.leaves →
    loop.weak = weak → Yields (loop.visit context (edge weak id)) memory [id] memory
  /-- Within a clone, the clone through the edge is that of the type of the edge. -/
  cloned : ∀ copier fuel,
    (Method.structuralClone.act ⟨file.leaves,copier,file.clone copier (fuel + 1)⟩
      (.strong id)).run memory =
    (do
      let clone ← target.clone file ⟨file.leaves,copier,file.clone copier fuel⟩ object
      return Data.object clone.cls clone.members : Action Data).run memory

variable {model : Model} {heap : Array Object} {nodes : Array Node} {memory : Memory}

theorem Represents.holds {field : Model.Field} {data : Data} {slot : Option Value} {flag : Bool}
    (represents : Represents model heap field data slot flag) :
    StructField.Holds (.of model) heap ⟨field.name,.of field,.of model field,field.doc⟩
      (field.name,data) := by
  refine ⟨rfl,?_⟩
  cases represents with
  | plain storage typed =>
    rw [storage]
    exact typed
  | option storage typed =>
    rw [storage]
    exact ⟨_,rfl,typed⟩
  | empty storage =>
    rw [storage]
    exact ⟨none,rfl,by simp⟩
  | filled storage typed =>
    rw [storage]
    exact ⟨_,rfl,by simpa using typed⟩

theorem Object.StandsFor.holds {object : Object} {node : Node}
    (stands : object.StandsFor model heap node) :
    List.Forall₂ (StructField.Holds (.of model) heap) (ClassItem.of model node.cls).fields
      object.members := by
  refine List.forall₂_map_left_iff.mpr (List.forall₂_iff_get.mpr ⟨?_,fun position _ bound => ?_⟩)
  · simpa using (congrArg List.length stands.names).symm
  · have atField := List.getElem?_eq_getElem (l := node.cls.fields) ‹position < _›
    obtain ⟨data,atMember,represents⟩ := stands.members position _ atField
    have same := (List.getElem?_eq_some_iff.mp atMember).2
    simp only [List.get_eq_getElem,same]
    exact represents.holds

/-- A type admits the objects that it has a variant for. -/
theorem Target.variant?_eq_some_iff {file : SourceFile} {object : Object} {target : Target}
    (apart : (file.families.map (·.cls)).Nodup) :
    target.variant? file object = some object.cls ↔ target.Admits file object.cls := by
  cases target with
  | struct name => simp [variant?,Admits,eq_comm]
  | family name =>
    constructor
    · intro picked
      obtain ⟨family,found,arm⟩ := Option.bind_eq_some_iff.mp picked
      exact ⟨family,List.mem_of_find?_eq_some found,by simpa using List.find?_some found,
        List.mem_of_find?_eq_some arm⟩
    · rintro ⟨family,listed,rfl,inside⟩
      have found := find?_of_mem FamilyItem.cls listed fun other there same =>
        List.inj_on_of_nodup_map apart there listed same
      have arm := find?_of_mem id inside fun _ _ same => same
      exact Option.bind_eq_some_iff.mpr ⟨family,found,arm⟩

theorem Sound.families_nodup (sound : Sound model) :
    ((SourceFile.of model).families.map (·.cls)).Nodup := by
  have names : (SourceFile.of model).families.map (·.cls) = model.categories.map (·.name) :=
    List.map_map ..
  rw [names]
  exact sound.consistent.names.sublist (List.filter_sublist.map _)

/-- The clone through an edge runs the method of the object behind the edge. -/
theorem structuralClone_run {context : Context} {id : NodeId} {object : Object}
    (behind : Yields (context.behind id) memory object memory) :
    (Method.structuralClone.act context (.strong id)).run memory =
      (do
        let clone ← context.again object
        return Data.object clone.cls clone.members : Action Data).run memory := by
  have steps : Method.structuralClone.act context (.strong id) = context.behind id >>= fun object =>
      (do
        let clone ← context.again object
        return Data.object clone.cls clone.members) := rfl
  rw [steps,StateT.run_bind,show (context.behind id).run memory = _ from behind]
  rfl

theorem Sound.dispatches (sound : Sound model) (related : Related model memory.heap nodes)
    (classes : Classes model nodes) {target : Model.Class} (known : target ∈ model.classes)
    {weak : Bool} {data : Data}
    (typed : IsEdge (.of model) memory.heap weak (.of model target.name) data) :
    ∃ id object item, data = edge weak id ∧
      Dispatches (.of model) memory (.of model target.name) weak id object item := by
  obtain ⟨id,rfl⟩ := typed.eq
  obtain ⟨node,atId,below,leaf⟩ := (sound.isEdge_iff related classes known).mp typed
  obtain ⟨object,found,stands⟩ := related.objects id node atId
  have member := classes id node atId
  have item : (SourceFile.of model).class? object.cls = some (.of model node.cls) :=
    stands.cls ▸ sound.item_of member
  have variant : (Target.of model target.name).variant? (.of model) object = some object.cls := by
    rw [Target.variant?_eq_some_iff sound.families_nodup,stands.cls]
    exact (sound.admits_iff known member).mpr ⟨below,leaf⟩
  have clone (context : Context) : (Target.of model target.name).clone (.of model) context object =
      (ClassItem.of model node.cls).clone context object := by
    unfold Target.clone
    rw [variant,Option.bind_some,item]
    rfl
  refine ⟨id,object,.of model node.cls,rfl,found,item,?_,fun context => ?_,clone,?_,?_⟩
  · have listed : (SourceFile.of model).leaves.contains object.cls = true :=
      stands.cls ▸ mem_leaves_of member leaf
    rw [Target.view?,variant,Option.filter_some,if_pos listed]
  · unfold Target.visits
    rw [variant,Option.bind_some,item]
    rfl
  · rintro context loop leaves rfl
    exact sound.visit_yields related classes leaves known typed
  · intro copier fuel
    let context : Context :=
      ⟨(SourceFile.of model).leaves,copier,(SourceFile.of model).clone copier (fuel + 1)⟩
    have leaves : context.leaves = (SourceFile.of model).leaves := rfl
    obtain ⟨other,found',behind⟩ := sound.behind_yields related classes leaves known typed
    cases Option.some.inj (found.symm.trans found')
    have again : context.again object = (ClassItem.of model node.cls).clone
        ⟨(SourceFile.of model).leaves,copier,(SourceFile.of model).clone copier fuel⟩ object := by
      change (SourceFile.of model).clone copier (fuel + 1) object = _
      rw [SourceFile.clone,item]
      rfl
    rw [structuralClone_run behind,again,clone]

end NodeModel.Source
