import NodeModel.Proofs.Arena.Construction

/-! Deferred fields are written once. A flag tells whether a field has been assigned: until then it
holds its default, from then on a value that no operation changes. -/
namespace NodeModel.Arena

variable {model : Model} {held : String → ExternalRef → Prop} {arena : Arena}

structure Node.Flagged (node : Node) : Prop where
  bound : ∀ (position : Nat) (field : Model.Field), node.cls.fields[position]? = some field →
    field.policy.bound = true → node.isAssigned position = false
  unassigned : ∀ (position : Nat) (field : Model.Field), node.cls.fields[position]? = some field →
    field.policy.bound = false → node.isAssigned position = false →
    node.slot position = initialSlot field
  assigned : ∀ (position : Nat) (field : Model.Field), node.cls.fields[position]? = some field →
    field.policy.bound = false → node.isAssigned position = true →
    (node.slot position).isSome = true

def AllFlagged (nodes : Array Node) : Prop :=
  ∀ (id : NodeId) (node : Node), nodes[id]? = some node → node.Flagged

theorem AllFlagged.push {nodes : Array Node} (flagged : AllFlagged nodes) {node : Node}
    (fresh : node.Flagged) : AllFlagged (nodes.push node) := by
  intro id other found
  rw [Array.getElem?_push] at found
  split at found
  next =>
    cases found
    exact fresh
  next => exact flagged id other found

/-- The constructor fills slots of bound fields only. -/
theorem construct_flagged {grown : Arena} {name : String} {arguments : List (Option Value)}
    {id : NodeId} (consistent : arena.model.Consistent) (flagged : AllFlagged arena.nodes)
    (done : arena.construct name arguments = .ok (id,grown)) : AllFlagged grown.nodes := by
  obtain ⟨node,rfl,rfl,member,_,_,clear,_,slot⟩ := construct_slots consistent done
  have lists := consistent.classes node.cls member
  refine flagged.push ⟨fun position _ _ _ => Node.isAssigned_of_clear clear position,?_,?_⟩
  · intro position field atField deferred _
    rw [slot position field atField,
      lookup_zip_absent (lists.not_mem_params (List.mem_of_getElem? atField) deferred)]
    rfl
  · intro position _ _ _ assigned
    simp [Node.isAssigned_of_clear clear position] at assigned

theorem Node.slot_assign {node : Node} {position : Nat} {value : Value}
    (inside : position < node.slots.length) (place : Nat) :
    (node.assign position value).slot place =
      if place = position then some value else node.slot place := by
  by_cases same : place = position
  · simp [Node.slot,Node.assign,same,inside]
  · simp [Node.slot,Node.assign,same,List.getElem?_set_ne (Ne.symm same)]

theorem Node.isAssigned_assign {node : Node} {position : Nat} {value : Value}
    (inside : position < node.assigned.length) (place : Nat) :
    (node.assign position value).isAssigned place =
      if place = position then true else node.isAssigned place := by
  by_cases same : place = position
  · simp [Node.isAssigned,Node.assign,same,inside]
  · simp [Node.isAssigned,Node.assign,same,List.getElem?_set_ne (Ne.symm same)]

theorem Node.Flagged.assign {node : Node} (flagged : node.Flagged) {position : Nat}
    {field : Model.Field} {value : Value} (atField : node.cls.fields[position]? = some field)
    (deferred : field.policy.bound = false) (slots : position < node.slots.length)
    (flags : position < node.assigned.length) : (node.assign position value).Flagged := by
  constructor
  case bound =>
    intro place other atPlace bound
    rw [Node.isAssigned_assign flags]
    split
    next same =>
      subst same
      cases Option.some.inj (atField.symm.trans atPlace)
      simp [deferred] at bound
    next => exact flagged.bound place other atPlace bound
  case unassigned =>
    intro place other atPlace deferred' clear
    rw [Node.isAssigned_assign flags] at clear
    split at clear
    next => simp at clear
    next apart =>
      rw [Node.slot_assign slots,if_neg apart]
      exact flagged.unassigned place other atPlace deferred' clear
  case assigned =>
    intro place other atPlace deferred' set
    rw [Node.isAssigned_assign flags] at set
    rw [Node.slot_assign slots]
    split at set
    next same => simp [same]
    next apart => simpa [apart] using flagged.assigned place other atPlace deferred' set

theorem set_flagged {changed : Arena} {id : NodeId} {name : String} {value : Value}
    (consistent : model.Consistent) (valid : AllValid model held arena.nodes)
    (flagged : AllFlagged arena.nodes) (done : arena.set id name value = .ok changed) :
    AllFlagged changed.nodes := by
  obtain ⟨node,position,field,found,located,deferred,_,_,rfl⟩ := set_eq_ok_iff.mp done
  have shape := valid id node found
  obtain ⟨atField,_⟩ := (locate_eq_ok_iff (consistent.classes _ shape.cls).names).mp located
  obtain ⟨inside,_⟩ := List.getElem?_eq_some_iff.mp atField
  intro other node' found'
  rcases getElem?_modify_assign found' with ⟨_,same⟩ | ⟨rfl,before,existing,rfl⟩
  · exact flagged other node' same
  · cases Option.some.inj (found.symm.trans existing)
    exact (flagged other node found).assign atField deferred (shape.slots ▸ inside)
      (shape.assigned ▸ inside)

/-- A flag is carried over, unless the field is reset. -/
theorem Mirrors.isAssigned_eq {paired : NodeId → NodeId → Prop}
    {copies : ExternalRef → ExternalRef → Prop} {source copy : Node}
    (mirrors : Mirrors paired copies source copy)
    (aligned : source.assigned.length = source.cls.fields.length) {position : Nat}
    {field : Model.Field} (atField : source.cls.fields[position]? = some field) :
    copy.isAssigned position = (source.isAssigned position && field.step != .reset) := by
  obtain ⟨bound,_⟩ := List.getElem?_eq_some_iff.mp atField
  have inside : position < source.assigned.length := aligned ▸ bound
  have entry : (source.cls.fields.zip source.assigned)[position]? =
      some (field,source.assigned[position]) :=
    List.getElem?_zip_eq_some.mpr ⟨atField,List.getElem?_eq_getElem inside⟩
  simp [Node.isAssigned,mirrors.assigned,entry,List.getElem?_eq_getElem inside]

/-- Contents that are not reset are neither lost nor made up. -/
theorem SlotMirror.isSome_eq {paired : NodeId → NodeId → Prop}
    {copies : ExternalRef → ExternalRef → Prop} {field : Model.Field} {slot slot' : Option Value}
    (mirror : SlotMirror paired copies field slot slot') (step : field.step ≠ .reset) :
    slot'.isSome = slot.isSome := by
  cases mirror with
  | reset _ reset => exact absurd reset step
  | _ => rfl

/-- A deferred field owns nothing, and its default is no external value. -/
theorem SlotMirror.eq_of_initial {paired : NodeId → NodeId → Prop}
    {copies : ExternalRef → ExternalRef → Prop} {cls : Model.Class} (lists : cls.Consistent)
    {field : Model.Field} (member : field ∈ cls.fields) (deferred : field.policy.bound = false)
    {slot slot' : Option Value} (mirror : SlotMirror paired copies field slot slot')
    (initial : slot = initialSlot field) : slot' = initialSlot field := by
  have owns : field.step.owns = false := by
    refine Bool.eq_false_iff.mpr fun owns => ?_
    simp [lists.bound_of_owns member owns] at deferred
  cases mirror with
  | reset => rfl
  | child step => simp [step,Model.CloneStep.owns] at owns
  | list step => simp [step,Model.CloneStep.owns] at owns
  | external step =>
    have kind := Model.Field.kind_of_externalCopy step (lists.modes field member)
    rw [initialSlot,lists.defaults field member,kind] at initial
    cases optional : field.policy.optional <;>
      simp [deferred,optional,Model.Default.sentinel,Value.ofDefault] at initial
  | kept => exact initial
  | absent => exact initial

theorem Mirrors.flagged {paired : NodeId → NodeId → Prop}
    {copies : ExternalRef → ExternalRef → Prop} {nodes : Array Node} {id : NodeId}
    {source copy : Node} (consistent : model.Consistent)
    (mirrors : Mirrors paired copies source copy) (valid : source.Valid model held nodes id)
    (flagged : source.Flagged) : copy.Flagged := by
  have lists := consistent.classes source.cls valid.cls
  have slots {position : Nat} {field : Model.Field}
      (atField : source.cls.fields[position]? = some field) :
      SlotMirror paired copies field (source.slot position) (copy.slot position) :=
    mirrors.slotMirror valid.slots atField
  constructor <;> intro position field atField binding
  all_goals rw [mirrors.cls] at atField
  all_goals rw [mirrors.isAssigned_eq valid.assigned atField]
  case bound => simp [flagged.bound position field atField binding]
  case unassigned =>
    intro clear
    by_cases reset : field.step = .reset
    · exact (slots atField).eq_initialSlot reset
    · have before : source.isAssigned position = false := by simpa [reset] using clear
      exact (slots atField).eq_of_initial lists (List.mem_of_getElem? atField) binding
        (flagged.unassigned position field atField binding before)
  case assigned =>
    intro set
    obtain ⟨before,kept⟩ : source.isAssigned position = true ∧ field.step ≠ .reset := by
      simpa using set
    rw [(slots atField).isSome_eq kept]
    exact flagged.assigned position field atField binding before

theorem Clones.flagged {copies : ExternalRef → ExternalRef → Prop} {before after : Array Node}
    {ids clones : List NodeId} (consistent : model.Consistent)
    (run : Clones copies before ids after clones) (valid : AllValid model (fun _ _ => True) before)
    (existing : ∀ id ∈ ids, id < before.size) (flagged : AllFlagged before) : AllFlagged after := by
  intro id node found
  rcases run.fresh (Q := Node.Flagged) consistent
    (fun _ _ _ _ shape flags mirrors => mirrors.flagged consistent shape flags)
    (fun _ flags => flags) valid existing flagged id node found with earlier | new
  · exact flagged id node earlier
  · exact new

theorem apply_flagged (consistent : arena.model.Consistent)
    (valid : AllValid arena.model (fun _ _ => True) arena.nodes) (flagged : AllFlagged arena.nodes)
    (operation : Operation) : AllFlagged (arena.apply operation).nodes := by
  cases operation with
  | construct cls arguments =>
    simp only [apply]
    split
    next done => exact construct_flagged consistent flagged done
    next => exact flagged
  | set id field value =>
    simp only [apply]
    split
    next done => exact set_flagged consistent valid flagged done
    next => exact flagged
  | clone id copier =>
    by_cases inArena : id < arena.size
    · obtain ⟨_,_,_,same,cloned⟩ := clone_existing consistent valid copier inArena
      simp only [apply,same]
      exact cloned.flagged consistent valid (List.forall_mem_singleton.mpr inArena) flagged
    · simpa only [apply,clone_missing copier (Nat.not_lt.mp inArena)] using flagged

theorem Reached.flagged {allowed : Operation → Prop} (reached : Reached model allowed arena)
    (consistent : model.Consistent) : AllFlagged arena.nodes := by
  have start : AllFlagged (empty model).nodes := by
    intro id node found
    simp [empty] at found
  refine reached.induction (P := fun arena => AllFlagged arena.nodes) consistent start ?_
  rintro arena operation rfl valid flagged
  exact apply_flagged consistent valid flagged operation

/-- How often the contents of a field change in a run. -/
def changes (id : NodeId) (name : String) : Arena → List Operation → Nat
  | _, [] => 0
  | arena, operation :: operations =>
    (if (arena.apply operation).get id name = arena.get id name then 0 else 1) +
      changes id name (arena.apply operation) operations

/-- One operation changes no field but a deferred one that it assigns for the first time. -/
theorem apply_get (consistent : arena.model.Consistent)
    (valid : AllValid arena.model (fun _ _ => True) arena.nodes) (operation : Operation)
    {id : NodeId} {node : Node} (found : arena.nodes[id]? = some node) {position : Nat}
    {field : Model.Field} (atField : node.cls.fields[position]? = some field) :
    (∃ node', (arena.apply operation).nodes[id]? = some node' ∧ node'.cls = node.cls ∧
      node'.isAssigned position = node.isAssigned position ∧
      (arena.apply operation).get id field.name = arena.get id field.name) ∨
    ∃ value, Assigns arena operation id node position field value := by
  have valid' := apply_valid consistent (fun _ _ _ => trivial) valid operation.respects_all
  have consistent' := (apply_model arena operation).symm ▸ consistent
  have shape := valid id node found
  rcases apply_found consistent valid operation found with kept | ⟨place,other,value,assigns⟩
  · refine .inl ⟨node,kept,rfl,rfl,?_⟩
    rw [get_eq_ok consistent' valid' kept atField,get_eq_ok consistent valid found atField]
  · by_cases same : position = place
    · subst same
      cases Option.some.inj (atField.symm.trans assigns.atField)
      exact .inr ⟨value,assigns⟩
    · obtain ⟨inside,_⟩ := List.getElem?_eq_some_iff.mp assigns.atField
      refine .inl ⟨_,assigns.after,rfl,?_,?_⟩
      · rw [Node.isAssigned_assign (shape.assigned ▸ inside),if_neg same]
      · rw [get_eq_ok consistent' valid' assigns.after atField,
          get_eq_ok consistent valid found atField,Node.slot_assign (shape.slots ▸ inside),
          if_neg same]

theorem changes_le (consistent : arena.model.Consistent)
    (valid : AllValid arena.model (fun _ _ => True) arena.nodes) (operations : List Operation)
    {id : NodeId} {node : Node} (found : arena.nodes[id]? = some node) {position : Nat}
    {field : Model.Field} (atField : node.cls.fields[position]? = some field) :
    changes id field.name arena operations ≤
      if field.policy.bound || node.isAssigned position then 0 else 1 := by
  induction operations generalizing arena node with
  | nil => exact Nat.zero_le _
  | cons operation operations ih =>
    have valid' := apply_valid consistent (fun _ _ _ => trivial) valid operation.respects_all
    have consistent' := (apply_model arena operation).symm ▸ consistent
    rw [changes]
    rcases apply_get consistent valid operation found atField with
      ⟨node',found',same,flag,equal⟩ | ⟨value,assigns⟩
    · rw [if_pos equal,Nat.zero_add,← flag]
      exact ih consistent' valid' found' (same ▸ atField)
    · -- From here on the field is assigned, so nothing more can happen to it.
      obtain ⟨inside,_⟩ := List.getElem?_eq_some_iff.mp atField
      have rest := ih consistent' valid' assigns.after atField
      rw [Node.isAssigned_assign ((valid id node found).assigned ▸ inside)] at rest
      simp only [if_true,Bool.or_true,Nat.le_zero] at rest
      rw [rest,assigns.deferred,assigns.unassigned]
      split <;> simp

/-- How a field of a node may be written. -/
structure WrittenOnce (arena : Arena) (id : NodeId) (node : Node) (position : Nat)
    (field : Model.Field) : Prop where
  /-- In the rest of a run the contents change once at most. -/
  changes : ∀ operations, changes id field.name arena operations ≤ 1
  /-- What changes the contents is a first assignment to this very field, which is deferred. -/
  cause : ∀ operation, (arena.apply operation).get id field.name ≠ arena.get id field.name →
    field.policy.bound = false ∧ node.isAssigned position = false ∧
    ∃ value changed, operation = .set id field.name value ∧
      arena.set id field.name value = .ok changed
  bound : field.policy.bound = true → node.isAssigned position = false
  unassigned : field.policy.bound = false → node.isAssigned position = false →
    arena.get id field.name = .ok (initialSlot field)
  assigned : field.policy.bound = false → node.isAssigned position = true →
    ∃ value, arena.get id field.name = .ok (some value)

theorem writtenOnce (consistent : arena.model.Consistent)
    (valid : AllValid arena.model (fun _ _ => True) arena.nodes) (flagged : AllFlagged arena.nodes)
    {id : NodeId} {node : Node} (found : arena.nodes[id]? = some node) {position : Nat}
    {field : Model.Field} (atField : node.cls.fields[position]? = some field) :
    WrittenOnce arena id node position field := by
  have flags := flagged id node found
  have contents := get_eq_ok consistent valid found atField
  constructor
  case changes =>
    intro operations
    refine (changes_le consistent valid operations found atField).trans ?_
    split <;> simp
  case cause =>
    intro operation differs
    rcases apply_get consistent valid operation found atField with
      ⟨_,_,_,_,equal⟩ | ⟨value,assigns⟩
    · exact absurd equal differs
    · obtain ⟨changed,done⟩ := assigns.succeeds
      exact ⟨assigns.deferred,assigns.unassigned,value,changed,assigns.operation_eq,done⟩
  case bound => exact flags.bound position field atField
  case unassigned =>
    intro deferred clear
    rw [contents,flags.unassigned position field atField deferred clear]
  case assigned =>
    intro deferred set
    obtain ⟨value,present⟩ := Option.isSome_iff_exists.mp
      (flags.assigned position field atField deferred set)
    exact ⟨value,by rw [contents,present]⟩

/-- An assignment succeeds for a deferred field that is not assigned and a value that fits. -/
theorem set_succeeds_iff (consistent : model.Consistent) (valid : AllValid model held arena.nodes)
    {id : NodeId} {node : Node} (found : arena.nodes[id]? = some node) (name : String)
    (value : Value) :
    (∃ changed, arena.set id name value = .ok changed) ↔
      ∃ (position : Nat) (field : Model.Field), node.cls.fields[position]? = some field ∧
        field.name = name ∧ field.policy.bound = false ∧ node.isAssigned position = false ∧
        value.Fits (fun name ref => name = ref.type) arena.nodes field.kind := by
  have names := (consistent.classes node.cls (valid id node found).cls).names
  constructor
  · rintro ⟨changed,done⟩
    obtain ⟨node',position,field,found',located,deferred,unassigned,fits,_⟩ :=
      set_eq_ok_iff.mp done
    cases Option.some.inj (found.symm.trans found')
    obtain ⟨atField,named⟩ := (locate_eq_ok_iff names).mp located
    exact ⟨position,field,atField,named,deferred,unassigned,fits⟩
  · rintro ⟨position,field,atField,named,deferred,unassigned,fits⟩
    have located := (locate_eq_ok_iff names).mpr ⟨atField,named⟩
    exact ⟨_,set_eq_ok_iff.mpr ⟨node,position,field,found,located,deferred,unassigned,fits,rfl⟩⟩

theorem set_eq_alreadyAssigned {id : NodeId} {node : Node} (found : arena.nodes[id]? = some node)
    (lists : node.cls.Consistent) {position : Nat} {field : Model.Field}
    (atField : node.cls.fields[position]? = some field) (deferred : field.policy.bound = false)
    (assigned : node.isAssigned position = true) (value : Value) :
    arena.set id field.name value = .error (.alreadyAssigned node.cls.name field.name) := by
  simp [Arena.set,node_eq_ok_iff.mpr found,bind,Except.bind,
    (locate_eq_ok_iff lists.names).mpr ⟨atField,rfl⟩,deferred,assigned,throw,throwThe,
    MonadExceptOf.throw]

structure FlagsCarriedOver (arena grown : Arena) (source new : NodeId) : Prop where
  flags : ∀ old copy, arena.nodes[source]? = some old → grown.nodes[new]? = some copy →
    ∀ (position : Nat) (field : Model.Field), old.cls.fields[position]? = some field →
      (⟨field.name,.reset⟩ ∈ old.cls.cloneRules → copy.isAssigned position = false) ∧
      (⟨field.name,.reset⟩ ∉ old.cls.cloneRules →
        copy.isAssigned position = old.isAssigned position)
  /-- What was reset can be assigned again. -/
  assignable : ∀ cls, arena.classOf source = .ok cls → ∀ field ∈ cls.fields,
    ⟨field.name,.reset⟩ ∈ cls.cloneRules → field.policy.bound = false →
    ∀ value : Value, value.Fits (fun name ref => name = ref.type) grown.nodes field.kind →
      ∃ changed, grown.set new field.name value = .ok changed

theorem Mirrored.flagsCarriedOver {copies : ExternalRef → ExternalRef → Prop} {grown : Arena}
    (consistent : model.Consistent) (valid : AllValid model held arena.nodes)
    (valid' : AllValid model held grown.nodes) (kept : Keeps arena.nodes grown.nodes)
    {source new : NodeId} (inArena : source < arena.size)
    (mirrored : Mirrored copies grown.nodes source new) :
    FlagsCarriedOver arena grown source new := by
  obtain ⟨old,found⟩ := found_of_lt_size inArena
  cases mirrored with
  | @intro _ _ old' copy atSource atCopy mirrors _ =>
    cases Option.some.inj ((kept source old found).symm.trans atSource)
    have shape := valid source old found
    have lists := consistent.classes old.cls shape.cls
    have reset {field : Model.Field} (member : field ∈ old.cls.fields) :
        ⟨field.name,.reset⟩ ∈ old.cls.cloneRules ↔ field.step = .reset :=
      (rule_mem_iff lists member).trans eq_comm
    constructor
    case flags =>
      intro old' copy' found' atCopy' position field atField
      cases Option.some.inj (found.symm.trans found')
      cases Option.some.inj (atCopy.symm.trans atCopy')
      rw [reset (List.mem_of_getElem? atField),mirrors.isAssigned_eq shape.assigned atField]
      exact ⟨fun step => by simp [step],fun step => by simp [step]⟩
    case assignable =>
      intro cls known field member rule deferred value fits
      cases Except.ok.inj ((classOf_of_found found).symm.trans known)
      obtain ⟨position,atField⟩ := List.getElem?_of_mem member
      refine (set_succeeds_iff consistent valid' atCopy field.name value).mpr
        ⟨position,field,mirrors.cls.symm ▸ atField,rfl,deferred,?_,fits⟩
      rw [mirrors.isAssigned_eq shape.assigned atField,(reset member).mp rule]
      simp

/-- In every run over a resolved model each field is written once at most after its node is there,
and only if it is deferred; flags tell what has been assigned, assignments succeed exactly where a
first value that fits is given, and a clone takes over the flags of what it does not reset. -/
theorem run_writeOnce {schema : Schema} {externals : NameSet} {model : Model} {arena : Arena}
    (resolved : schema.resolveWith externals = .ok model)
    (reached : Reached model (fun _ => True) arena) :
    (∀ (id : NodeId) (node : Node), arena.nodes[id]? = some node →
      (∀ (position : Nat) (field : Model.Field), node.cls.fields[position]? = some field →
        WrittenOnce arena id node position field) ∧
      ∀ name value, (∃ changed, arena.set id name value = .ok changed) ↔
        ∃ (position : Nat) (field : Model.Field), node.cls.fields[position]? = some field ∧
          field.name = name ∧ field.policy.bound = false ∧ node.isAssigned position = false ∧
          value.Fits (fun name ref => name = ref.type) arena.nodes field.kind) ∧
    ∀ (id : NodeId) (copier : Copier), id < arena.size →
      ∃ clone, (arena.clone copier id).result = .ok clone ∧
        ∀ source new, Counterpart (arena.clone copier id).arena.nodes id clone source new →
          FlagsCarriedOver arena (arena.clone copier id).arena source new := by
  have consistent := Schema.consistent_of_resolved resolved
  have valid := reached.valid_any consistent
  have flagged := reached.flagged consistent
  obtain rfl := reached.model_eq
  refine ⟨fun id node found => ⟨fun position field atField => ?_,?_⟩,fun id copier inArena => ?_⟩
  · exact writtenOnce consistent valid flagged found atField
  · exact set_succeeds_iff consistent valid found
  · obtain ⟨clone,after,_,same,run⟩ := clone_existing consistent valid copier inArena
    rw [same]
    have valid' : AllValid arena.model (fun _ _ => True) after.nodes :=
      run.valid consistent (fun _ _ _ _ _ => trivial) valid (List.forall_mem_singleton.mpr inArena)
    refine ⟨clone,rfl,fun source new pair => ?_⟩
    exact (pair.mirrored (run.mirrored id clone List.mem_cons_self)).flagsCarriedOver consistent
      valid valid' run.keeps (Nat.lt_of_le_of_lt (pair.le valid') inArena)

/-- The parent of the sample's group is assigned and its stamp is not, and so it is in the clone. -/
theorem run_writeOnce_sample :
    Reached sampleModel (fun _ => True) sampleArena ∧ 1 < sampleArena.size ∧
    changes 1 "stamp" sampleArena [.set 1 "stamp" (.integer 3),.set 1 "stamp" (.integer 4)] = 1 ∧
    (∃ changed, sampleArena.set 4 "stamp" (.integer 5) = .ok changed) ∧
    sampleArena.set 4 "parent" (.node 1) = .error (.alreadyAssigned "Group" "parent") ∧
    FlagsCarriedOver sampleArena (sampleArena.clone (fun _ ref => ref) 1).arena 1 7 := by
  have reached : Reached sampleModel (fun _ => True) sampleArena :=
    sampleArena_reached fun _ _ => trivial
  have inside : 1 < sampleArena.size := by decide
  have discipline := run_writeOnce sample_resolved reached
  refine ⟨reached,inside,by decide,?_,rfl,?_⟩
  · refine ((discipline.1 4 _ rfl).2 "stamp" (.integer 5)).mpr ?_
    exact ⟨4,_,rfl,by decide,by decide,by decide,trivial,by decide⟩
  · have seven : (sampleArena.clone (fun _ ref => ref) 1).result = .ok 7 := by decide
    obtain ⟨clone,result,flags⟩ := discipline.2 1 (fun _ ref => ref) inside
    cases Except.ok.inj (seven.symm.trans result)
    exact flags 1 7 .root

end NodeModel.Arena
