import NodeModel.Proofs.Arena.Counterpart
import NodeModel.Proofs.Arena.Ownership

/-! When a clone is structurally equal to its source: if nothing below the source is reset or copied
to something else. -/
namespace NodeModel.Arena

/-- A clone leaves the contents of a slot as they are, apart from what the slot owns. -/
def SlotPlain (copy : ExternalRef → ExternalRef) (field : Model.Field) (slot : Option Value) :
    Prop :=
  (field.step = .reset → slot = initialSlot field) ∧
  ∀ type ref, field.step = .externalCopy type → slot = some (.external ref) → copy ref = ref

def Node.Plain (copy : ExternalRef → ExternalRef) (node : Node) : Prop :=
  ∀ (position : Nat) (field : Model.Field), node.cls.fields[position]? = some field →
    SlotPlain copy field (node.slot position)

variable {copy : ExternalRef → ExternalRef}

/-- A slot unfolds as its source does if it is plain and the children it owns unfold as theirs. -/
theorem SlotMirror.unfoldSlot_eq_iff {below : NodeId → Unfolding} {deep : NodeId → Prop}
    {field : Model.Field} {slot slot' : Option Value}
    (mirror : SlotMirror (fun x y => below x = below y ↔ deep x) (fun ref new => copy ref = new)
      field slot slot') :
    unfoldSlot below field.step slot = unfoldSlot below field.step slot' ↔
      SlotPlain copy field slot ∧ ∀ child ∈ ownedIds field.step slot, deep child := by
  cases mirror with
  | reset slot step => simp [unfoldSlot,SlotPlain,ownedIds,step,Model.CloneStep.owns]
  | child step pair =>
    simpa [unfoldSlot,SlotPlain,ownedIds,step,Model.CloneStep.owns,Value.nodeIds] using pair
  | list step pairs =>
    have lists {xs ys : List NodeId}
        (pairs : List.Forall₂ (fun x y => below x = below y ↔ deep x) xs ys) :
        xs.map below = ys.map below ↔ ∀ x ∈ xs, deep x := by
      induction pairs with
      | nil => simp
      | cons pair _ ih => simp [pair,ih]
    simpa [unfoldSlot,SlotPlain,ownedIds,step,Model.CloneStep.owns,Value.nodeIds] using lists pairs
  | external step copied =>
    subst copied
    simp only [unfoldSlot,SlotPlain,ownedIds,step,Model.CloneStep.owns,Unfolding.raw.injEq,
      Option.some.injEq,Value.external.injEq]
    constructor
    · intro same
      simp [← same]
    · rintro ⟨⟨_,fixed⟩,_⟩
      exact (fixed _ _ rfl rfl).symm
  | kept slot step =>
    rcases step with step | step <;> simp [SlotPlain,ownedIds,step,Model.CloneStep.owns]
  | absent step => simp [SlotPlain,ownedIds,step]

variable {model : Model} {held : String → ExternalRef → Prop} {arena grown : Arena}

theorem Node.plain_and_owned_iff {node : Node} {deep : NodeId → Prop} :
    (node.Plain copy ∧ ∀ child ∈ node.owned, deep child) ↔
      ∀ (position : Nat) (field : Model.Field), node.cls.fields[position]? = some field →
        SlotPlain copy field (node.slot position) ∧
        ∀ child ∈ ownedIds field.step (node.slot position), deep child := by
  constructor
  · rintro ⟨plain,each⟩ position field atField
    exact ⟨plain position field atField,fun child inside =>
      each child (Node.mem_owned_of_slot atField inside)⟩
  · intro slots
    refine ⟨fun position field atField => (slots position field atField).1,fun child member => ?_⟩
    obtain ⟨position,field,value,atField,owns,atSlot,inside⟩ := Node.mem_owned.mp member
    refine (slots position field atField).2 child (mem_ownedIds.mpr ⟨owns,value,?_,inside⟩)
    rw [Node.slot,atSlot]
    rfl

/-- Reset fields of the node are at their defaults, and its external values are copied to
themselves. -/
def Unchanged (arena : Arena) (copy : ExternalRef → ExternalRef) (id : NodeId) : Prop :=
  ∀ node, arena.nodes[id]? = some node → ∀ field ∈ node.cls.fields, ∀ step,
    ⟨field.name,step⟩ ∈ node.cls.cloneRules →
    (step = .reset → arena.get id field.name = .ok (initialSlot field)) ∧
    ∀ type ref, step = .externalCopy type →
      arena.get id field.name = .ok (some (.external ref)) → copy ref = ref

def UnchangedBelow (arena : Arena) (copy : ExternalRef → ExternalRef) (id : NodeId) : Prop :=
  ∀ other, Relation.ReflTransGen arena.Owns id other → arena.Unchanged copy other

theorem rule_mem_iff {cls : Model.Class} (lists : cls.Consistent) {field : Model.Field}
    (member : field ∈ cls.fields) {step : Model.CloneStep} :
    ⟨field.name,step⟩ ∈ cls.cloneRules ↔ step = field.step := by
  rw [lists.cloneRules,List.mem_map]
  constructor
  · rintro ⟨other,inside,same⟩
    simp only [Model.CloneRule.mk.injEq] at same
    cases List.inj_on_of_nodup_map lists.names inside member same.1
    exact same.2.symm
  · rintro rfl
    exact ⟨field,member,rfl⟩

theorem unchanged_iff (consistent : model.Consistent) (valid : AllValid model held arena.nodes)
    {id : NodeId} {node : Node} (found : arena.nodes[id]? = some node) :
    arena.Unchanged copy id ↔ node.Plain copy := by
  have lists := consistent.classes node.cls (valid id node found).cls
  constructor
  · intro unchanged position field atField
    have member := List.mem_of_getElem? atField
    have both := unchanged node found field member _ ((rule_mem_iff lists member).mpr rfl)
    rw [get_eq_ok consistent valid found atField] at both
    simpa [SlotPlain] using both
  · intro plain node' found' field member step rule
    cases Option.some.inj (found.symm.trans found')
    obtain ⟨position,atField⟩ := List.getElem?_of_mem member
    rw [get_eq_ok consistent valid found atField,(rule_mem_iff lists member).mp rule]
    simpa [SlotPlain] using plain position field atField

theorem unchangedBelow_iff (consistent : model.Consistent)
    (valid : AllValid model held arena.nodes) {id : NodeId} {node : Node}
    (found : arena.nodes[id]? = some node) :
    arena.UnchangedBelow copy id ↔
      node.Plain copy ∧ ∀ child ∈ node.owned, arena.UnchangedBelow copy child := by
  rw [← unchanged_iff consistent valid found]
  constructor
  · intro below
    refine ⟨below id .refl,fun child member other path => ?_⟩
    exact below other (.head ((owns_iff consistent valid found).mpr member) path)
  · rintro ⟨plain,below⟩ other path
    rcases path.cases_head with rfl | ⟨child,owns,path⟩
    · exact plain
    · exact below child ((owns_iff consistent valid found).mp owns) other path

/-- Nodes added later do not matter. -/
theorem unchangedBelow_kept (consistent : model.Consistent)
    (valid : AllValid model held arena.nodes) (valid' : AllValid model held grown.nodes)
    (kept : Keeps arena.nodes grown.nodes) (id : NodeId) (inArena : id < arena.size) :
    grown.UnchangedBelow copy id ↔ arena.UnchangedBelow copy id := by
  induction id using Nat.strong_induction_on with
  | _ id ih =>
    obtain ⟨node,found⟩ := found_of_lt_size inArena
    rw [unchangedBelow_iff consistent valid found,
      unchangedBelow_iff consistent valid' (kept id node found)]
    refine and_congr_right fun _ => forall₂_congr fun child member => ?_
    obtain ⟨smaller,inside⟩ := (valid id node found).owned_lt member
    exact ih child smaller inside

theorem Mirrored.unfolding_eq_iff (consistent : model.Consistent)
    (valid : AllValid model held arena.nodes) {id clone : NodeId}
    (mirrored : Mirrored (fun ref new => copy ref = new) arena.nodes id clone) :
    unfolding arena.nodes id = unfolding arena.nodes clone ↔ arena.UnchangedBelow copy id := by
  induction mirrored with
  | @intro id clone source node atSource atCopy mirrors _ ih =>
    have first := valid id source atSource
    have second := valid clone node atCopy
    have pairs : List.Forall₂ (fun x y => unfolding arena.nodes x = unfolding arena.nodes y ↔
        arena.UnchangedBelow copy x) source.owned node.owned :=
      List.forall₂_iff_zip.mpr ⟨(mirrors.owned first.slots).length_eq,fun {x y} => ih x y⟩
    have each := mirrors.repair first.slots pairs
    rw [Arena.unfolding_eq_iff first second atSource atCopy mirrors.cls,
      unchangedBelow_iff consistent valid atSource,Node.plain_and_owned_iff]
    refine forall₃_congr fun position field atField => ?_
    exact (each.slotMirror first.slots atField).unfoldSlot_eq_iff

theorem Mirrored.structurallyEqual (consistent : model.Consistent)
    (valid : AllValid model held arena.nodes) {id clone : NodeId}
    (mirrored : Mirrored (fun ref new => copy ref = new) arena.nodes id clone) :
    ∃ answer, arena.structurallyEqual id clone = .ok answer ∧
      (answer = true ↔ arena.UnchangedBelow copy id) := by
  have same := mirrored.unfolding_eq_iff consistent valid
  cases mirrored with
  | intro atSource atCopy =>
    have inArena := lt_size_of_found atSource
    obtain ⟨answer,right,given⟩ :=
      equalNodes_decides consistent valid id clone inArena (lt_size_of_found atCopy)
    exact ⟨answer,given _ (Nat.le_succ_of_le inArena),right.trans same⟩

/-- `new` is of the class of `source`, its reset fields are at their defaults, and what is copied by
value or shared is as it was. -/
structure CarriedOver (arena grown : Arena) (source new : NodeId) : Prop where
  cls : grown.classOf new = arena.classOf source
  reset : ∀ cls, arena.classOf source = .ok cls → ∀ field ∈ cls.fields,
    ⟨field.name,.reset⟩ ∈ cls.cloneRules → grown.get new field.name = .ok (initialSlot field)
  kept : ∀ cls, arena.classOf source = .ok cls → ∀ field ∈ cls.fields, ∀ step,
    ⟨field.name,step⟩ ∈ cls.cloneRules → step = .copyValue ∨ step = .shareReference →
    grown.get new field.name = arena.get source field.name

theorem classOf_of_found {id : NodeId} {node : Node} (found : arena.nodes[id]? = some node) :
    arena.classOf id = .ok node.cls := by
  rw [classOf,node_eq_ok_iff.mpr found]
  rfl

theorem Mirrored.carriedOver {copies : ExternalRef → ExternalRef → Prop}
    (consistent : model.Consistent) (valid : AllValid model held arena.nodes)
    (valid' : AllValid model held grown.nodes) (kept : Keeps arena.nodes grown.nodes)
    {source new : NodeId} (inArena : source < arena.size)
    (mirrored : Mirrored copies grown.nodes source new) : CarriedOver arena grown source new := by
  obtain ⟨old,found⟩ := found_of_lt_size inArena
  cases mirrored with
  | @intro _ _ old' node atSource atCopy mirrors _ =>
    cases Option.some.inj ((kept source old found).symm.trans atSource)
    have shape := valid source old found
    have lists := consistent.classes old.cls shape.cls
    have slots {field : Model.Field} (member : field ∈ old.cls.fields) :
        ∃ slot slot', arena.get source field.name = .ok slot ∧
          grown.get new field.name = .ok slot' ∧
          SlotMirror (fun _ _ => True) copies field slot slot' := by
      obtain ⟨position,atField⟩ := List.getElem?_of_mem member
      exact ⟨_,_,get_eq_ok consistent valid found atField,
        get_eq_ok consistent valid' atCopy (mirrors.cls.symm ▸ atField),
        mirrors.slotMirror shape.slots atField⟩
    have known := classOf_of_found found
    constructor
    case cls => rw [known,classOf_of_found atCopy,mirrors.cls]
    case reset =>
      intro cls same field member rule
      cases Except.ok.inj (known.symm.trans same)
      obtain ⟨slot,slot',_,new,mirror⟩ := slots member
      rw [new,mirror.eq_initialSlot ((rule_mem_iff lists member).mp rule).symm]
    case kept =>
      intro cls same field member step rule verbatim
      cases Except.ok.inj (known.symm.trans same)
      obtain ⟨slot,slot',old,new,mirror⟩ := slots member
      rw [(rule_mem_iff lists member).mp rule] at verbatim
      rw [old,new,mirror.eq_source verbatim]

theorem Counterpart.exists_of_owns (consistent : model.Consistent)
    (valid : AllValid model held arena.nodes) {copies : ExternalRef → ExternalRef → Prop}
    {id clone x y child : NodeId} (mirrored : Mirrored copies arena.nodes id clone)
    (pair : Counterpart arena.nodes id clone x y) (owns : arena.Owns x child) :
    ∃ new, Counterpart arena.nodes id clone child new := by
  cases pair.mirrored mirrored with
  | @intro _ _ source node atSource atCopy mirrors _ =>
    have member := (owns_iff consistent valid atSource).mp owns
    have same := (mirrors.owned (valid x source atSource).slots).length_eq
    obtain ⟨position,bound,rfl⟩ := List.mem_iff_getElem.mp member
    have paired : position < (source.owned.zip node.owned).length := by
      rw [List.length_zip,← same,Nat.min_self]
      exact bound
    have inside : (source.owned[position],node.owned[position]) ∈ source.owned.zip node.owned := by
      simpa using List.getElem_mem paired
    exact ⟨_,.child pair atSource atCopy inside⟩

/-- A required deferred field starts with the sentinel of its kind, every other field empty. -/
theorem initialSlot_eq {cls : Model.Class} (lists : cls.Consistent) {field : Model.Field}
    (member : field ∈ cls.fields) :
    initialSlot field = if field.policy.bound || field.policy.optional then none
      else Value.ofDefault (.sentinel field.kind) := by
  rw [initialSlot,lists.defaults field member]
  cases field.policy.bound <;> cases field.policy.optional <;> rfl

/-- A clone equals its source if and only if nothing below the source is reset away or copied to
something else. Whether or not it does, the nodes of the clone are the counterparts of those below
the source, reset fields are at their defaults, and what is not owned is carried over. -/
theorem run_clone_law {schema : Schema} {externals : NameSet} {model : Model} {arena : Arena}
    (resolved : schema.resolveWith externals = .ok model)
    (reached : Reached model (fun _ => True) arena) (copy : ExternalRef → ExternalRef)
    {id : NodeId} (inArena : id < arena.size) {cloned : Cloned}
    (done : arena.clone (fun _ => copy) id = cloned) :
    (∃ clone, cloned.result = .ok clone ∧
      (∃ answer, cloned.arena.structurallyEqual id clone = .ok answer ∧
        (answer = true ↔
          ∀ other, Relation.ReflTransGen arena.Owns id other → arena.Unchanged copy other)) ∧
      (∀ source, Relation.ReflTransGen arena.Owns id source →
        ∃ new, Counterpart cloned.arena.nodes id clone source new) ∧
      (∀ new, arena.size ≤ new → new < cloned.arena.size →
        ∃ source, Counterpart cloned.arena.nodes id clone source new) ∧
      ∀ source new, Counterpart cloned.arena.nodes id clone source new →
        CarriedOver arena cloned.arena source new) ∧
    ∀ cls ∈ model.classes, ∀ field ∈ cls.fields, initialSlot field =
      if field.policy.bound || field.policy.optional then none
      else Value.ofDefault (.sentinel field.kind) := by
  have consistent := Schema.consistent_of_resolved resolved
  have valid := reached.valid_any consistent
  obtain ⟨clone,after,_,same,run⟩ := clone_existing consistent valid (fun _ => copy) inArena
  cases done.symm.trans same
  rw [Copier.returns_pure] at run
  let grown : Arena := { arena with nodes := after.nodes }
  have kept : Keeps arena.nodes grown.nodes := run.keeps
  have valid' : AllValid model (fun _ _ => True) grown.nodes :=
    run.valid consistent (fun _ _ _ _ _ => trivial) valid (List.forall_mem_singleton.mpr inArena)
  have mirrored : Mirrored (fun ref new => copy ref = new) grown.nodes id clone :=
    run.mirrored id clone List.mem_cons_self
  refine ⟨⟨clone,rfl,?_,fun source path => ?_,fun new fresh inside => ?_,
    fun source new pair => ?_⟩,?_⟩
  · obtain ⟨answer,given,right⟩ := mirrored.structurallyEqual consistent valid'
    exact ⟨answer,given,right.trans (unchangedBelow_kept consistent valid valid' kept id inArena)⟩
  · induction path with
    | refl => exact ⟨clone,.root⟩
    | tail _ owns ih =>
      obtain ⟨new,pair⟩ := ih
      exact pair.exists_of_owns consistent valid' mirrored (owns.mono consistent valid valid' kept)
  · obtain ⟨other,copy',source,member,pair⟩ := run.counterpart fresh inside
    cases List.mem_singleton.mp member
    exact ⟨source,pair⟩
  · exact (pair.mirrored mirrored).carriedOver consistent valid valid' kept
      (Nat.lt_of_le_of_lt (pair.le valid') inArena)
  · intro cls member field inside
    exact initialSlot_eq (consistent.classes cls member) inside

/-- The group of the sample, cloned with its external value as it is. -/
theorem run_clone_law_sample :
    Reached sampleModel (fun _ => True) sampleArena ∧ 1 < sampleArena.size ∧
    (sampleArena.clone (fun _ ref => ref) 1).result = .ok 7 ∧
    (sampleArena.clone (fun _ ref => ref) 1).arena.structurallyEqual 1 7 = .ok true ∧
    ∀ other, Relation.ReflTransGen sampleArena.Owns 1 other →
      sampleArena.Unchanged (fun ref => ref) other := by
  have reached : Reached sampleModel (fun _ => True) sampleArena :=
    sampleArena_reached fun _ _ => trivial
  have inside : 1 < sampleArena.size := by decide
  have seven : (sampleArena.clone (fun _ ref => ref) 1).result = .ok 7 := by decide
  have equal : (sampleArena.clone (fun _ ref => ref) 1).arena.structurallyEqual 1 7 =
      .ok true := by decide
  obtain ⟨⟨clone,result,⟨answer,given,right⟩,_⟩,_⟩ :=
    run_clone_law sample_resolved reached (fun ref => ref) inside rfl
  cases Except.ok.inj (seven.symm.trans result)
  exact ⟨reached,inside,seven,equal,right.mp (Except.ok.inj (given.symm.trans equal))⟩

end NodeModel.Arena
