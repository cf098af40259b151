import Mathlib.Data.List.Forall2
import NodeModel.Arena.Clone
import NodeModel.Proofs.Arena.Operations

/-! Cloning as a relation. `Clones` says what became of a list of nodes cloned one after another,
without fuel and without the copier's history; in a valid arena every clone runs to its end and is
described by it. -/
namespace NodeModel.Arena

def ownedIds (step : Model.CloneStep) (slot : Option Value) : List NodeId :=
  if step.owns then (slot.map Value.nodeIds).getD [] else []

def ownedBy (fields : List Model.Field) (slots : List (Option Value)) : List NodeId :=
  (fields.zip slots).flatMap fun entry => ownedIds entry.1.step entry.2

/-- The owned children of a node, in the order in which a clone comes to them. -/
def Node.owned (node : Node) : List NodeId := ownedBy node.cls.fields node.slots

theorem mem_ownedIds {step : Model.CloneStep} {slot : Option Value} {child : NodeId} :
    child ∈ ownedIds step slot ↔
      step.owns = true ∧ ∃ value, slot = some value ∧ child ∈ value.nodeIds := by
  cases slot <;> simp [ownedIds]

theorem Node.mem_owned {node : Node} {child : NodeId} :
    child ∈ node.owned ↔ ∃ (position : Nat) (field : Model.Field) (value : Value),
      node.cls.fields[position]? = some field ∧ field.step.owns = true ∧
      node.slots[position]? = some (some value) ∧ child ∈ value.nodeIds := by
  simp only [Node.owned,ownedBy,List.mem_flatMap,mem_ownedIds]
  constructor
  · rintro ⟨⟨field,slot⟩,member,owns,value,rfl,inside⟩
    obtain ⟨position,found⟩ := List.getElem?_of_mem member
    obtain ⟨atField,atSlot⟩ := List.getElem?_zip_eq_some.mp found
    exact ⟨position,field,value,atField,owns,atSlot,inside⟩
  · rintro ⟨position,field,value,atField,owns,atSlot,inside⟩
    have found : (node.cls.fields.zip node.slots)[position]? = some (field,some value) :=
      List.getElem?_zip_eq_some.mpr ⟨atField,atSlot⟩
    exact ⟨(field,some value),List.mem_of_getElem? found,owns,value,rfl,inside⟩

theorem Node.mem_owned_of_slot {node : Node} {position : Nat} {field : Model.Field}
    (atField : node.cls.fields[position]? = some field) {child : NodeId}
    (inside : child ∈ ownedIds field.step (node.slot position)) : child ∈ node.owned := by
  obtain ⟨owns,value,present,member⟩ := mem_ownedIds.mp inside
  exact Node.mem_owned.mpr
    ⟨position,field,value,atField,owns,Option.join_eq_some_iff.mp present,member⟩

/-- What a copier may return for a value, whatever was handed to it before. -/
def Copier.Returns (copier : Copier) (ref new : ExternalRef) : Prop :=
  ∃ handed, copier handed ref = new

theorem Copier.returns_pure (copy : ExternalRef → ExternalRef) :
    Copier.Returns (fun _ => copy) = fun ref new => copy ref = new := by
  funext ref new
  simp [Copier.Returns]

/-- How the slot of a clone stands to that of its source. `paired` relates owned children to their
clones, `copies` external values to their copies. -/
inductive SlotMirror (paired : NodeId → NodeId → Prop) (copies : ExternalRef → ExternalRef → Prop)
    (field : Model.Field) : Option Value → Option Value → Prop where
  | reset (slot : Option Value) (step : field.step = .reset) :
      SlotMirror paired copies field slot (initialSlot field)
  | child {child copy : NodeId} (step : field.step = .cloneChild) (pair : paired child copy) :
      SlotMirror paired copies field (some (.node child)) (some (.node copy))
  | list {children clones : List NodeId} (step : field.step = .cloneList)
      (pairs : List.Forall₂ paired children clones) :
      SlotMirror paired copies field (some (.list children)) (some (.list clones))
  | external {type : String} {ref new : ExternalRef} (step : field.step = .externalCopy type)
      (copied : copies ref new) :
      SlotMirror paired copies field (some (.external ref)) (some (.external new))
  | kept (slot : Option Value) (step : field.step = .copyValue ∨ field.step = .shareReference) :
      SlotMirror paired copies field slot slot
  | absent (step : field.step ≠ .reset) : SlotMirror paired copies field none none

section

variable {paired paired' : NodeId → NodeId → Prop} {copies : ExternalRef → ExternalRef → Prop}
  {field : Model.Field} {slot slot' : Option Value}

theorem SlotMirror.owned (mirror : SlotMirror paired copies field slot slot') :
    List.Forall₂ paired (ownedIds field.step slot) (ownedIds field.step slot') := by
  cases mirror with
  | reset slot step => simp [ownedIds,step,Model.CloneStep.owns]
  | child step pair => simpa [ownedIds,step,Model.CloneStep.owns,Value.nodeIds] using pair
  | list step pairs => simpa [ownedIds,step,Model.CloneStep.owns,Value.nodeIds] using pairs
  | external step => simp [ownedIds,step,Model.CloneStep.owns]
  | kept slot step => rcases step with step | step <;> simp [ownedIds,step,Model.CloneStep.owns]
  | absent => simp [ownedIds]

theorem SlotMirror.eq_initialSlot (mirror : SlotMirror paired copies field slot slot')
    (step : field.step = .reset) : slot' = initialSlot field := by
  cases mirror <;> simp_all

theorem SlotMirror.eq_source (mirror : SlotMirror paired copies field slot slot')
    (step : field.step = .copyValue ∨ field.step = .shareReference) : slot' = slot := by
  cases mirror <;> simp_all

/-- What relates the owned children may be replaced by anything else that does. -/
theorem SlotMirror.repair (mirror : SlotMirror paired copies field slot slot')
    (pairs : List.Forall₂ paired' (ownedIds field.step slot) (ownedIds field.step slot')) :
    SlotMirror paired' copies field slot slot' := by
  cases mirror with
  | reset slot step => exact .reset slot step
  | child step =>
    simp only [ownedIds,step,Model.CloneStep.owns,Value.nodeIds,Option.map_some,Option.getD_some,
      if_true,List.forall₂_cons] at pairs
    exact .child step pairs.1
  | list step =>
    simp only [ownedIds,step,Model.CloneStep.owns,Value.nodeIds,Option.map_some,Option.getD_some,
      if_true] at pairs
    exact .list step pairs
  | external step copied => exact .external step copied
  | kept slot step => exact .kept slot step
  | absent step => exact .absent step

end

structure Mirrors (paired : NodeId → NodeId → Prop) (copies : ExternalRef → ExternalRef → Prop)
    (source copy : Node) : Prop where
  cls : copy.cls = source.cls
  slots : List.Forall₂ (fun entry slot => SlotMirror paired copies entry.1 entry.2 slot)
    (source.cls.fields.zip source.slots) copy.slots
  assigned : copy.assigned = (source.cls.fields.zip source.assigned).map fun entry =>
    entry.2 && entry.1.step != .reset

namespace Mirrors

variable {paired paired' : NodeId → NodeId → Prop} {copies : ExternalRef → ExternalRef → Prop}
  {source copy : Node}

theorem slot_at (mirrors : Mirrors paired copies source copy)
    (aligned : source.slots.length = source.cls.fields.length) {position : Nat}
    {field : Model.Field} (atField : source.cls.fields[position]? = some field) :
    ∃ slot slot', source.slots[position]? = some slot ∧ copy.slots[position]? = some slot' ∧
      SlotMirror paired copies field slot slot' := by
  obtain ⟨bound,rfl⟩ := List.getElem?_eq_some_iff.mp atField
  obtain ⟨same,each⟩ := List.forall₂_iff_get.mp mirrors.slots
  have inside : position < (source.cls.fields.zip source.slots).length := by
    simp [aligned,bound]
  have mirror := each position inside (same ▸ inside)
  simp only [List.get_eq_getElem,List.getElem_zip] at mirror
  exact ⟨_,_,List.getElem?_eq_getElem (aligned ▸ bound),List.getElem?_eq_getElem (same ▸ inside),
    mirror⟩

theorem slotMirror (mirrors : Mirrors paired copies source copy)
    (aligned : source.slots.length = source.cls.fields.length) {position : Nat}
    {field : Model.Field} (atField : source.cls.fields[position]? = some field) :
    SlotMirror paired copies field (source.slot position) (copy.slot position) := by
  obtain ⟨slot,slot',there,there',mirror⟩ := mirrors.slot_at aligned atField
  simpa [Node.slot,there,there'] using mirror

theorem owned_eq (mirrors : Mirrors paired copies source copy)
    (aligned : source.slots.length = source.cls.fields.length) :
    copy.owned = ownedBy ((source.cls.fields.zip source.slots).map (·.1)) copy.slots := by
  rw [Node.owned,mirrors.cls,List.map_fst_zip (Nat.le_of_eq aligned.symm)]

theorem owned (mirrors : Mirrors paired copies source copy)
    (aligned : source.slots.length = source.cls.fields.length) :
    List.Forall₂ paired source.owned copy.owned := by
  rw [mirrors.owned_eq aligned,Node.owned,ownedBy,ownedBy]
  have each := mirrors.slots
  generalize source.cls.fields.zip source.slots = entries, copy.slots = slots at each ⊢
  induction each with
  | nil => exact .nil
  | cons mirror _ ih => exact List.rel_append mirror.owned ih

theorem repair (mirrors : Mirrors paired copies source copy)
    (aligned : source.slots.length = source.cls.fields.length)
    (pairs : List.Forall₂ paired' source.owned copy.owned) :
    Mirrors paired' copies source copy := by
  refine ⟨mirrors.cls,?_,mirrors.assigned⟩
  rw [mirrors.owned_eq aligned,Node.owned,ownedBy,ownedBy] at pairs
  have each := mirrors.slots
  generalize source.cls.fields.zip source.slots = entries, copy.slots = slots at each pairs ⊢
  induction each with
  | nil => exact .nil
  | cons mirror _ ih =>
    simp only [List.map_cons,List.zip_cons_cons,List.flatMap_cons] at pairs
    -- A slot and its copy own equally many children, so the pairs split slot by slot.
    have same := mirror.owned.length_eq
    have first := List.forall₂_take_append _ _ _ pairs
    have rest := List.forall₂_drop_append _ _ _ pairs
    rw [← same,List.take_left] at first
    rw [← same,List.drop_left] at rest
    exact .cons (mirror.repair first) (ih rest)

end Mirrors

/-- Cloning the nodes `ids` in order turns `before` into `after` and yields `clones`. The owned
children of a node are cloned before the node itself is added. -/
inductive Clones (copies : ExternalRef → ExternalRef → Prop) :
    Array Node → List NodeId → Array Node → List NodeId → Prop where
  | done (nodes : Array Node) : Clones copies nodes [] nodes []
  | next {before inner after : Array Node} {id : NodeId} {source copy : Node}
      {rest clones : List NodeId} (found : before[id]? = some source)
      (children : Clones copies before source.owned inner copy.owned)
      (mirrors : Mirrors (fun _ _ => True) copies source copy)
      (later : Clones copies (inner.push copy) rest after clones) :
      Clones copies before (id :: rest) after (inner.size :: clones)

theorem Clones.append {copies : ExternalRef → ExternalRef → Prop}
    {before middle after : Array Node} {first second clones clones' : List NodeId}
    (left : Clones copies before first middle clones)
    (right : Clones copies middle second after clones') :
    Clones copies before (first ++ second) after (clones ++ clones') := by
  induction left with
  | done => exact right
  | next found children mirrors _ _ ih => exact .next found children mirrors (ih right)

theorem Clones.length_eq {copies : ExternalRef → ExternalRef → Prop} {before after : Array Node}
    {ids clones : List NodeId} (run : Clones copies before ids after clones) :
    ids.length = clones.length := by
  induction run with
  | done => rfl
  | next _ _ _ _ _ ih => simp [ih]

/-- Cloning only adds nodes. -/
theorem Clones.keeps {copies : ExternalRef → ExternalRef → Prop} {before after : Array Node}
    {ids clones : List NodeId} (run : Clones copies before ids after clones) :
    Keeps before after := by
  induction run with
  | done => exact .refl _
  | next _ _ _ _ inner outer => exact (inner.trans (.push _ _)).trans outer

def SameClass (nodes : Array Node) (id copy : NodeId) : Prop :=
  ∃ source node, nodes[id]? = some source ∧ nodes[copy]? = some node ∧ node.cls = source.cls

theorem SameClass.mono {before after : Array Node} (kept : Keeps before after) {id copy : NodeId}
    (same : SameClass before id copy) : SameClass after id copy := by
  obtain ⟨source,node,found,found',same⟩ := same
  exact ⟨source,node,kept id source found,kept copy node found',same⟩

theorem Clones.sameClass {copies : ExternalRef → ExternalRef → Prop} {before after : Array Node}
    {ids clones : List NodeId} (run : Clones copies before ids after clones) :
    List.Forall₂ (SameClass after) ids clones := by
  induction run with
  | done => exact .nil
  | @next before inner after id source copy rest clones found children mirrors later _ ih =>
    have kept : Keeps before (inner.push copy) := children.keeps.trans (.push inner copy)
    have pair : SameClass (inner.push copy) id inner.size :=
      ⟨source,copy,kept id source found,Array.getElem?_push_size,mirrors.cls⟩
    exact .cons (pair.mono later.keeps) ih

variable {model : Model} {held : String → ExternalRef → Prop}

/-- What an owned edge leads to is there and is older. -/
theorem Node.Valid.owned_lt {nodes : Array Node} {id : NodeId} {node : Node}
    (valid : node.Valid model held nodes id) {child : NodeId} (member : child ∈ node.owned) :
    child < id ∧ child < nodes.size := by
  obtain ⟨position,field,value,atField,owns,atSlot,inside⟩ := Node.mem_owned.mp member
  obtain ⟨other,existing⟩ := (valid.fits position field value atField atSlot).exists inside
  exact ⟨valid.owned position field value atField owns atSlot child inside,
    lt_size_of_found existing⟩

theorem SlotMirror.fits {copies : ExternalRef → ExternalRef → Prop} {nodes : Array Node}
    {cls : Model.Class} {field : Model.Field} {slot slot' : Option Value} (lists : cls.Consistent)
    (member : field ∈ cls.fields)
    (typed : ∀ name ref new, held name ref → copies ref new → held name new)
    (mirror : SlotMirror (SameClass nodes) copies field slot slot')
    (source : ∀ value, slot = some value → value.Fits held nodes field.kind) (value : Value)
    (present : slot' = some value) : value.Fits held nodes field.kind := by
  have target {name : String} {id copy : NodeId} (pair : SameClass nodes id copy)
      (fits : ∃ node, nodes[id]? = some node ∧ node.cls.isSubclassOf name = true) :
      ∃ node, nodes[copy]? = some node ∧ node.cls.isSubclassOf name = true := by
    obtain ⟨old,new,atId,atCopy,same⟩ := pair
    obtain ⟨node,found,typed⟩ := fits
    cases Option.some.inj (atId.symm.trans found)
    exact ⟨new,atCopy,same ▸ typed⟩
  cases mirror with
  | reset _ _ => exact (initialSlot_fits lists member nodes present).1
  | child step pair =>
    obtain ⟨name,kind⟩ := Model.Field.kind_of_cloneChild step
    have fits := source _ rfl
    cases present
    rw [kind] at fits ⊢
    refine ⟨trivial,fun name named id inside => ?_⟩
    obtain rfl := List.mem_singleton.mp inside
    exact target pair (fits.targets name named _ (List.mem_singleton.mpr rfl))
  | list step pairs =>
    obtain ⟨name,kind⟩ := Model.Field.kind_of_cloneList step
    have fits := source _ rfl
    cases present
    rw [kind] at fits ⊢
    refine ⟨trivial,fun name named id inside => ?_⟩
    obtain ⟨position,bound,rfl⟩ := List.mem_iff_getElem.mp inside
    obtain ⟨same,each⟩ := List.forall₂_iff_get.mp pairs
    exact target (each position (same ▸ bound) bound)
      (fits.targets name named _ (List.getElem_mem (same ▸ bound)))
  | external step copied =>
    have kind := Model.Field.kind_of_externalCopy step (lists.modes field member)
    have fits := source _ rfl
    cases present
    rw [kind] at fits ⊢
    exact ⟨typed _ _ _ fits.shape copied,by simp [FieldKind.target?]⟩
  | kept _ _ => exact source value present
  | absent => cases present

/-- A copy is valid beside the clones of the children that its source owns. -/
theorem Mirrors.valid {copies : ExternalRef → ExternalRef → Prop} {nodes : Array Node}
    {id : NodeId} {source copy : Node} (consistent : model.Consistent)
    (typed : ∀ name ref new, held name ref → copies ref new → held name new)
    (mirrors : Mirrors (SameClass nodes) copies source copy)
    (valid : source.Valid model held nodes id) : copy.Valid model held nodes nodes.size := by
  have lists := consistent.classes source.cls valid.cls
  obtain ⟨cls,slots,assigned⟩ := copy
  obtain rfl : cls = source.cls := mirrors.cls
  have length : slots.length = source.cls.fields.length := by
    have same := mirrors.slots.length_eq
    simp only [List.length_zip,valid.slots,Nat.min_self] at same
    exact same.symm
  have flags : assigned.length = source.cls.fields.length := by
    have same := congrArg List.length mirrors.assigned
    simpa [valid.assigned] using same
  have fits (position : Nat) (field : Model.Field) (value : Value)
      (atField : source.cls.fields[position]? = some field)
      (atSlot : slots[position]? = some (some value)) : value.Fits held nodes field.kind := by
    obtain ⟨slot,slot',atSource,atCopy,mirror⟩ := mirrors.slot_at valid.slots atField
    refine mirror.fits lists (List.mem_of_getElem? atField) typed (fun old present => ?_) value
      (Option.some.inj (atCopy.symm.trans atSlot))
    exact valid.fits position field old atField (present ▸ atSource)
  refine ⟨valid.cls,length,flags,fits,fun position field value atField _ atSlot child inside => ?_⟩
  obtain ⟨node,existing⟩ := (fits position field value atField atSlot).exists inside
  exact lt_size_of_found existing

theorem Clones.valid {copies : ExternalRef → ExternalRef → Prop} {before after : Array Node}
    {ids clones : List NodeId} (consistent : model.Consistent)
    (typed : ∀ name ref new, held name ref → copies ref new → held name new)
    (run : Clones copies before ids after clones) (valid : AllValid model held before)
    (existing : ∀ id ∈ ids, id < before.size) : AllValid model held after := by
  induction run with
  | done => exact valid
  | @next before inner after id source copy rest clones found children mirrors _ below ahead =>
    have node := valid id source found
    have inside : AllValid model held inner :=
      below valid fun child member => (node.owned_lt member).2
    have fresh : copy.Valid model held inner inner.size :=
      (mirrors.repair node.slots children.sameClass).valid consistent typed
        (inside id source (children.keeps id source found))
    refine ahead (inside.push fresh) fun other member => ?_
    have bound := existing other (List.mem_cons_of_mem _ member)
    have later := lt_size_of_found (children.keeps other _ (Array.getElem?_eq_getElem bound))
    simpa using Nat.lt_succ_of_lt later

/-- What a copy has from its source holds of every node that cloning adds. -/
theorem Clones.fresh {copies : ExternalRef → ExternalRef → Prop} {before after : Array Node}
    {ids clones : List NodeId} {P Q : Node → Prop} (consistent : model.Consistent)
    (step : ∀ (nodes : Array Node) (id : NodeId) (source copy : Node),
      source.Valid model (fun _ _ => True) nodes id → P source →
      Mirrors (fun _ _ => True) copies source copy → Q copy)
    (weaker : ∀ node, Q node → P node) (run : Clones copies before ids after clones)
    (valid : AllValid model (fun _ _ => True) before) (existing : ∀ id ∈ ids, id < before.size)
    (start : ∀ (id : NodeId) (node : Node), before[id]? = some node → P node) :
    ∀ (id : NodeId) (node : Node), after[id]? = some node → before[id]? = some node ∨ Q node := by
  induction run with
  | done => exact fun _ _ found => .inl found
  | @next before inner after id source copy rest clones found children mirrors _ below ahead =>
    have shape := valid id source found
    have inside := below valid (fun child member => (shape.owned_lt member).2) start
    have copied : Q copy := step before id source copy shape (start id source found) mirrors
    have pushed : ∀ (other : NodeId) (node : Node), (inner.push copy)[other]? = some node →
        before[other]? = some node ∨ Q node := by
      intro other node found
      rw [Array.getElem?_push] at found
      split at found
      next =>
        cases found
        exact .inr copied
      next => exact inside other node found
    have cloned : Clones copies before [id] (inner.push copy) [inner.size] :=
      .next found children mirrors (.done _)
    have valid' := cloned.valid consistent (fun _ _ _ _ _ => trivial) valid
      (List.forall_mem_singleton.mpr (lt_size_of_found found))
    have existing' : ∀ other ∈ rest, other < (inner.push copy).size := by
      intro other member
      have there := existing other (List.mem_cons_of_mem _ member)
      exact lt_size_of_found (cloned.keeps other _ (Array.getElem?_eq_getElem there))
    intro other node there
    rcases ahead valid' existing' (fun other node found =>
      (pushed other node found).elim (start other node) (weaker node)) other node there with
      earlier | new
    · exact pushed other node earlier
    · exact .inr new

end NodeModel.Arena
