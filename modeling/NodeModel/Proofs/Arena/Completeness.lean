import NodeModel.Proofs.Arena.WriteOnce

/-! The missing fields of a node follow from its history: which operation added it, and what has
been assigned since. -/
namespace NodeModel.Arena

variable {model : Model} {held : String → ExternalRef → Prop} {arena : Arena}

def startsEmpty : FieldKind → Bool
  | .single _ | .primitive (.external _) => true
  | _ => false

/-- Whether a required field is missing: one that is deferred and starts empty until it is assigned,
one that is bound in the clones that reset it. -/
def lacks (cloned assigned : Bool) (field : Model.Field) : Bool :=
  !field.policy.optional &&
    if field.policy.bound then cloned && field.policy.copyMode == .reset
    else !assigned && startsEmpty field.kind

def fieldNames (cls : Model.Class) (picked : Nat → Model.Field → Bool) : List String :=
  (cls.fields.zipIdx.filter fun entry => picked entry.2 entry.1).map (·.1.name)

theorem fieldNames_congr {cls : Model.Class} {picked picked' : Nat → Model.Field → Bool}
    (same : ∀ (position : Nat) (field : Model.Field), cls.fields[position]? = some field →
      picked position field = picked' position field) :
    fieldNames cls picked = fieldNames cls picked' := by
  unfold fieldNames
  rw [List.filter_congr fun entry listed => same _ _ (List.mem_zipIdx_iff_getElem?.mp listed)]

theorem fieldNames_sublist {picked picked' : Nat → Model.Field → Bool}
    (weaker : ∀ position field, picked position field = true → picked' position field = true)
    (cls : Model.Class) : (fieldNames cls picked).Sublist (fieldNames cls picked') := by
  refine (List.monotone_filter_right _ ?_).map _
  exact fun entry => weaker entry.2 entry.1

theorem fieldNames_eq_nil {cls : Model.Class} {picked : Nat → Model.Field → Bool} :
    fieldNames cls picked = [] ↔ ∀ (position : Nat) (field : Model.Field),
      cls.fields[position]? = some field → picked position field = false := by
  simp only [fieldNames,List.map_eq_nil_iff,List.filter_eq_nil_iff,Bool.not_eq_true]
  constructor
  · exact fun none position field atField =>
      none (field,position) (List.mem_zipIdx_iff_getElem?.mpr atField)
  · exact fun none entry listed => none _ _ (List.mem_zipIdx_iff_getElem?.mp listed)

theorem missingFields_eq {id : NodeId} {node : Node} (found : arena.nodes[id]? = some node)
    (aligned : node.slots.length = node.cls.fields.length) :
    arena.missingFields id = .ok (fieldNames node.cls fun position field =>
      !field.policy.optional && (node.slot position).isNone) := by
  have entries : node.cls.fields.zip node.slots =
      node.cls.fields.zipIdx.map fun entry => (entry.1,node.slot entry.2) := by
    refine List.ext_getElem (by simp [aligned]) fun position inside _ => ?_
    have bound : position < node.slots.length := by simp at inside; omega
    simp [Node.slot,bound]
  rw [missingFields,node_eq_ok_iff.mpr found]
  simp only [bind,Except.bind,pure,Except.pure,entries,List.filter_map,List.map_map]
  rfl

theorem isNone_sentinel (kind : FieldKind) :
    (Value.ofDefault (.sentinel kind)).isNone = startsEmpty kind := by
  cases kind with
  | primitive value => cases value <;> rfl
  | _ => rfl

def Operation.Sets (arena : Arena) (operation : Operation) (id : NodeId) (name : String) : Prop :=
  ∃ value changed, operation = .set id name value ∧ arena.set id name value = .ok changed

/-- The field is assigned in the course of a run. -/
def SetIn (id : NodeId) (name : String) : Arena → List Operation → Prop
  | _, [] => False
  | arena, operation :: operations =>
    operation.Sets arena id name ∨ SetIn id name (arena.apply operation) operations

/-- What has become of a node in a run. -/
structure Later (arena : Arena) (operations : List Operation) (id : NodeId) (node later : Node) :
    Prop where
  cls : later.cls = node.cls
  bound : ∀ (position : Nat) (field : Model.Field), node.cls.fields[position]? = some field →
    field.policy.bound = true → later.slot position = node.slot position
  filled : ∀ position, (node.slot position).isSome = true → (later.slot position).isSome = true
  assigned : ∀ (position : Nat) (field : Model.Field), node.cls.fields[position]? = some field →
    (later.isAssigned position = true ↔
      node.isAssigned position = true ∨ SetIn id field.name arena operations)

theorem apply_later (consistent : arena.model.Consistent)
    (valid : AllValid arena.model held arena.nodes) (operation : Operation) {id : NodeId}
    {node : Node} (found : arena.nodes[id]? = some node) :
    ∃ later, (arena.apply operation).nodes[id]? = some later ∧
      Later arena [operation] id node later := by
  have shape := valid id node found
  have marked {later : Node} (after : (arena.apply operation).nodes[id]? = some later)
      {position : Nat} {field : Model.Field} (atField : node.cls.fields[position]? = some field)
      (sets : operation.Sets arena id field.name) : later.isAssigned position = true := by
    obtain ⟨value,changed,rfl,done⟩ := sets
    obtain ⟨inside,_⟩ := List.getElem?_eq_some_iff.mp atField
    have assigns := Assigns.of_set consistent valid found atField done
    cases Option.some.inj (after.symm.trans assigns.after)
    rw [Node.isAssigned_assign (shape.assigned ▸ inside),if_pos rfl]
  rcases apply_found consistent valid operation found with kept | ⟨place,other,value,assigns⟩
  · refine ⟨node,kept,rfl,fun _ _ _ _ => rfl,fun _ some => some,fun position field atField => ?_⟩
    refine ⟨.inl,?_⟩
    rintro (before | sets | never)
    · exact before
    · exact marked kept atField sets
    · exact never.elim
  · obtain ⟨inside,_⟩ := List.getElem?_eq_some_iff.mp assigns.atField
    have slots : place < node.slots.length := shape.slots ▸ inside
    have flags : place < node.assigned.length := shape.assigned ▸ inside
    refine ⟨_,assigns.after,rfl,?_,?_,?_⟩
    · intro position field atField bound
      rw [Node.slot_assign slots,if_neg]
      rintro rfl
      cases Option.some.inj (atField.symm.trans assigns.atField)
      simp [assigns.deferred] at bound
    · intro position some
      rw [Node.slot_assign slots]
      split
      next => rfl
      next => exact some
    · intro position field atField
      constructor
      · rw [Node.isAssigned_assign flags]
        split
        next same =>
          subst same
          cases Option.some.inj (atField.symm.trans assigns.atField)
          obtain ⟨changed,done⟩ := assigns.succeeds
          exact fun _ => .inr (.inl ⟨value,changed,assigns.operation_eq,done⟩)
        next => exact .inl
      · rintro (before | sets | never)
        · rw [Node.isAssigned_assign flags]
          split
          next => rfl
          next => exact before
        · exact marked assigns.after atField sets
        · exact never.elim

theorem Later.trans {operation : Operation} {operations : List Operation} {id : NodeId}
    {node middle later : Node} (first : Later arena [operation] id node middle)
    (rest : Later (arena.apply operation) operations id middle later) :
    Later arena (operation :: operations) id node later := by
  refine ⟨rest.cls.trans first.cls,?_,?_,?_⟩
  · intro position field atField bound
    rw [rest.bound position field (first.cls ▸ atField) bound,
      first.bound position field atField bound]
  · exact fun position some => rest.filled position (first.filled position some)
  · intro position field atField
    rw [rest.assigned position field (first.cls ▸ atField),
      first.assigned position field atField]
    simp [SetIn,or_assoc]

theorem run_later (consistent : arena.model.Consistent)
    (valid : AllValid arena.model (fun _ _ => True) arena.nodes) (operations : List Operation)
    {id : NodeId} {node : Node} (found : arena.nodes[id]? = some node) :
    ∃ later, (arena.run operations).nodes[id]? = some later ∧
      Later arena operations id node later := by
  induction operations generalizing arena node with
  | nil =>
    exact ⟨node,found,rfl,fun _ _ _ _ => rfl,fun _ some => some,fun _ _ _ => by simp [SetIn]⟩
  | cons operation operations ih =>
    obtain ⟨middle,found',first⟩ := apply_later consistent valid operation found
    obtain ⟨later,found'',rest⟩ := ih ((apply_model arena operation).symm ▸ consistent)
      (apply_valid consistent (fun _ _ _ => trivial) valid operation.respects_all) found'
    exact ⟨later,found'',first.trans rest⟩

def Operation.isClone : Operation → Bool
  | .clone _ _ => true
  | _ => false

/-- The operation of a run that adds a node: the first one after which the node is there. -/
def creator? (id : NodeId) : Arena → List Operation → Option Operation
  | _, [] => none
  | arena, operation :: operations =>
    if id < (arena.apply operation).size then some operation
    else creator? id (arena.apply operation) operations

/-- Required bound fields have contents, unless the node is a clone and the field is reset. -/
def Node.BoundFilled (cloned : Bool) (node : Node) : Prop :=
  ∀ (position : Nat) (field : Model.Field), node.cls.fields[position]? = some field →
    field.policy.optional = false → field.policy.bound = true →
    (node.slot position).isNone = (cloned && field.policy.copyMode == .reset)

def AllBoundFilled (nodes : Array Node) : Prop :=
  ∀ (id : NodeId) (node : Node), nodes[id]? = some node → ∃ cloned, node.BoundFilled cloned

theorem Node.BoundFilled.later {operations : List Operation} {id : NodeId} {node later : Node}
    {cloned : Bool} (filled : node.BoundFilled cloned)
    (life : Later arena operations id node later) : later.BoundFilled cloned := by
  intro position field atField required bound
  rw [life.cls] at atField
  rw [life.bound position field atField bound]
  exact filled position field atField required bound

theorem construct_boundFilled (consistent : arena.model.Consistent) {name : String}
    {arguments : List (Option Value)} {id : NodeId} {grown : Arena}
    (done : arena.construct name arguments = .ok (id,grown)) {other : NodeId} {node : Node}
    (found : grown.nodes[other]? = some node) (new : arena.size ≤ other) :
    node.BoundFilled false ∧ ∀ position, node.isAssigned position = false := by
  obtain ⟨fresh,rfl,rfl,member,_,_,clear,takes,slot⟩ := construct_slots consistent done
  obtain rfl : fresh = node := by
    have bound : other < arena.size + 1 := by simpa [size] using lt_size_of_found found
    obtain rfl : other = arena.size := Nat.le_antisymm (Nat.le_of_lt_succ bound) new
    simpa [size] using found
  refine ⟨fun position field atField required bound => ?_,Node.isAssigned_of_clear clear⟩
  obtain ⟨value,given⟩ := lookup_required (consistent.classes _ member) takes
    (List.mem_of_getElem? atField) bound required
  simp [slot position field atField,given]

theorem Mirrors.boundFilled {paired : NodeId → NodeId → Prop}
    {copies : ExternalRef → ExternalRef → Prop} {nodes : Array Node} {id : NodeId}
    {source copy : Node} {cloned : Bool} (consistent : model.Consistent)
    (mirrors : Mirrors paired copies source copy) (valid : source.Valid model held nodes id)
    (filled : source.BoundFilled cloned) : copy.BoundFilled true := by
  intro position field atField required bound
  rw [mirrors.cls] at atField
  have mirror := mirrors.slotMirror valid.slots atField
  by_cases reset : field.step = .reset
  · rw [mirror.eq_initialSlot reset,initialSlot_eq (consistent.classes _ valid.cls)
      (List.mem_of_getElem? atField),bound,field.step_eq_reset_iff.mp reset]
    rfl
  · have mode : (field.policy.copyMode == .reset) = false :=
      beq_eq_false_iff_ne.mpr (mt field.step_eq_reset_iff.mpr reset)
    have before := filled position field atField required bound
    have same := mirror.isSome_eq reset
    simp only [mode,Bool.and_false,Option.isNone_eq_false_iff] at before ⊢
    rw [same,before]

/-- A new node is a clone with nothing in its reset fields, or all its required bound fields were
given and none of its fields is assigned. -/
theorem apply_fresh (consistent : arena.model.Consistent)
    (valid : AllValid arena.model (fun _ _ => True) arena.nodes)
    (filled : AllBoundFilled arena.nodes) {operation : Operation} {id : NodeId} {node : Node}
    (found : (arena.apply operation).nodes[id]? = some node) (new : arena.size ≤ id) :
    node.BoundFilled operation.isClone ∧
      (operation.isClone = false → ∀ position, node.isAssigned position = false) := by
  have absent {node : Node} : arena.nodes[id]? ≠ some node :=
    fun earlier => Nat.not_lt.mpr new (lt_size_of_found earlier)
  cases operation with
  | construct cls arguments =>
    cases done : arena.construct cls arguments with
    | error fault => exact absurd (by simpa only [apply,done] using found) absent
    | ok result =>
      obtain ⟨filled,clear⟩ := construct_boundFilled consistent done
        (by simpa only [apply,done] using found) new
      exact ⟨filled,fun _ => clear⟩
  | set other name value =>
    exfalso
    cases done : arena.set other name value with
    | error fault => exact absent (by simpa only [apply,done] using found)
    | ok changed =>
      obtain ⟨_,_,_,_,_,_,_,_,rfl⟩ := set_eq_ok_iff.mp done
      simp only [apply,done] at found
      rcases getElem?_modify_assign found with ⟨_,same⟩ | ⟨rfl,_,before,_⟩
      · exact absent same
      · exact absent before
  | clone other copier =>
    refine ⟨?_,by simp [Operation.isClone]⟩
    by_cases inArena : other < arena.size
    · obtain ⟨_,_,_,same,cloned⟩ := clone_existing consistent valid copier inArena
      simp only [apply,same] at found
      rcases cloned.fresh (Q := Node.BoundFilled true) consistent
        (fun _ _ _ _ shape filled mirrors =>
          filled.elim fun _ filled => mirrors.boundFilled consistent shape filled)
        (fun _ filled => ⟨true,filled⟩) valid (List.forall_mem_singleton.mpr inArena) filled
        id node found with earlier | fresh
      · exact absurd earlier absent
      · exact fresh
    · simp only [apply,clone_missing copier (Nat.not_lt.mp inArena)] at found
      exact absurd found absent

theorem apply_boundFilled (consistent : arena.model.Consistent)
    (valid : AllValid arena.model (fun _ _ => True) arena.nodes)
    (filled : AllBoundFilled arena.nodes) (operation : Operation) :
    AllBoundFilled (arena.apply operation).nodes := by
  intro id node found
  by_cases old : id < arena.size
  · obtain ⟨before,existing⟩ := found_of_lt_size old
    obtain ⟨later,after,life⟩ := apply_later consistent valid operation existing
    cases Option.some.inj (found.symm.trans after)
    obtain ⟨cloned,contents⟩ := filled id before existing
    exact ⟨cloned,contents.later life⟩
  · exact ⟨_,(apply_fresh consistent valid filled found (Nat.not_lt.mp old)).1⟩

theorem not_sets {id : NodeId} (absent : arena.size ≤ id) (operation : Operation) (name : String) :
    ¬ operation.Sets arena id name := by
  rintro ⟨value,changed,_,done⟩
  obtain ⟨node,_,_,found,_⟩ := set_eq_ok_iff.mp done
  exact Nat.not_lt.mpr absent (lt_size_of_found found)

/-- Every node that a run adds has a creator, and if it is constructed its flags tell what has been
assigned in the run. -/
theorem run_history (consistent : arena.model.Consistent)
    (valid : AllValid arena.model (fun _ _ => True) arena.nodes)
    (filled : AllBoundFilled arena.nodes) {operations : List Operation} {id : NodeId}
    (new : arena.size ≤ id) {node : Node} (found : (arena.run operations).nodes[id]? = some node) :
    ∃ creator, creator? id arena operations = some creator ∧
      node.BoundFilled creator.isClone ∧
      (creator.isClone = false → ∀ (position : Nat) (field : Model.Field),
        node.cls.fields[position]? = some field →
        (node.isAssigned position = true ↔ SetIn id field.name arena operations)) := by
  induction operations generalizing arena with
  | nil => exact absurd (lt_size_of_found found) (Nat.not_lt.mpr new)
  | cons operation operations ih =>
    have consistent' := (apply_model arena operation).symm ▸ consistent
    have valid' := apply_valid consistent (fun _ _ _ => trivial) valid operation.respects_all
    have unset := not_sets new operation
    by_cases there : id < (arena.apply operation).size
    · obtain ⟨fresh,existing⟩ := found_of_lt_size there
      obtain ⟨contents,clear⟩ := apply_fresh consistent valid filled existing new
      obtain ⟨later,after,life⟩ := run_later consistent' valid' operations existing
      cases Option.some.inj (found.symm.trans after)
      refine ⟨operation,by simp [creator?,there],contents.later life,?_⟩
      intro built position field atField
      rw [life.assigned position field (life.cls ▸ atField)]
      simp [clear built,SetIn,unset]
    · obtain ⟨creator,created,contents,flags⟩ := ih consistent' valid'
        (apply_boundFilled consistent valid filled operation) (Nat.not_lt.mp there) found
      refine ⟨creator,by simpa [creator?,there] using created,contents,?_⟩
      simpa [SetIn,unset] using flags

/-- An empty slot of a required field is one that the history accounts for. -/
theorem isNone_eq_lacks {node : Node} {cloned : Bool} (lists : node.cls.Consistent)
    (flagged : node.Flagged) (filled : node.BoundFilled cloned) {position : Nat}
    {field : Model.Field} (atField : node.cls.fields[position]? = some field) :
    (!field.policy.optional && (node.slot position).isNone) =
      lacks cloned (node.isAssigned position) field := by
  unfold lacks
  cases required : field.policy.optional with
  | true => rfl
  | false =>
    cases bound : field.policy.bound with
    | true => simp [filled position field atField required bound]
    | false =>
      cases assigned : node.isAssigned position with
      | true => simpa using flagged.assigned position field atField bound assigned
      | false =>
        rw [flagged.unassigned position field atField bound assigned,
          initialSlot_eq lists (List.mem_of_getElem? atField),bound,required]
        simpa using isNone_sentinel field.kind

/-- A constructed node lacks what is required, has no sentinel and is not assigned. -/
theorem lacks_constructed {assigned : Bool} {field : Model.Field} :
    lacks false assigned field = false ↔ (field.policy.optional = false →
      field.policy.bound = false → startsEmpty field.kind = true → assigned = true) := by
  unfold lacks
  cases field.policy.optional <;> cases field.policy.bound <;> cases assigned <;> simp

theorem complete_iff {node : Node} (set : String → Prop)
    (flags : ∀ (position : Nat) (field : Model.Field), node.cls.fields[position]? = some field →
      (node.isAssigned position = true ↔ set field.name)) :
    (fieldNames node.cls fun position field => lacks false (node.isAssigned position) field) = [] ↔
      ∀ field ∈ node.cls.fields, field.policy.optional = false → field.policy.bound = false →
        startsEmpty field.kind = true → set field.name := by
  simp only [fieldNames_eq_nil,lacks_constructed]
  constructor
  · intro complete field member required deferred empty
    obtain ⟨position,atField⟩ := List.getElem?_of_mem member
    exact (flags position field atField).mp (complete position field atField required deferred empty)
  · intro every position field atField required deferred empty
    exact (flags position field atField).mpr
      (every field (List.mem_of_getElem? atField) required deferred empty)

/-- Slots are filled in a run and never emptied. -/
theorem run_missing_sublist (consistent : arena.model.Consistent)
    (valid : AllValid arena.model (fun _ _ => True) arena.nodes) (operations : List Operation)
    {id : NodeId} {node : Node} (found : arena.nodes[id]? = some node) {missing : List String}
    (listed : arena.missingFields id = .ok missing) :
    ∃ fewer, (arena.run operations).missingFields id = .ok fewer ∧ fewer.Sublist missing := by
  obtain ⟨later,after,life⟩ := run_later consistent valid operations found
  have valid' := run_valid consistent (fun _ _ _ => trivial) valid
    fun operation (_ : operation ∈ operations) => operation.respects_all
  refine ⟨_,missingFields_eq after (valid' id later after).slots,?_⟩
  rw [missingFields_eq found (valid id node found).slots] at listed
  cases listed
  rw [life.cls]
  refine fieldNames_sublist (fun position field missing => ?_) node.cls
  obtain ⟨required,empty⟩ := Bool.and_eq_true_iff.mp missing
  refine Bool.and_eq_true_iff.mpr ⟨required,?_⟩
  by_contra filled
  have still := life.filled position (by simpa [Option.isSome_iff_ne_none] using filled)
  simp [Option.isNone_iff_eq_none.mp empty] at still

/-- In every run over a resolved model the missing fields of a node are, in order, the required ones
that are deferred, have no sentinel and are not assigned, and in clones also those that are bound and
reset. A constructed node is complete once what has no sentinel is assigned, and nothing that is
there goes missing. -/
theorem run_missing_exact {schema : Schema} {externals : NameSet} {model : Model} {arena : Arena}
    (resolved : schema.resolveWith externals = .ok model) {operations : List Operation}
    (done : (empty model).run operations = arena) {id : NodeId} {node : Node}
    (found : arena.nodes[id]? = some node) :
    ∃ creator missing, creator? id (empty model) operations = some creator ∧
      arena.missingFields id = .ok missing ∧
      missing = fieldNames node.cls (fun position field =>
        lacks creator.isClone (node.isAssigned position) field) ∧
      (creator.isClone = false → (missing = [] ↔ ∀ field ∈ node.cls.fields,
        field.policy.optional = false → field.policy.bound = false →
        startsEmpty field.kind = true → SetIn id field.name (empty model) operations)) ∧
      ∀ others, ∃ fewer, (arena.run others).missingFields id = .ok fewer ∧
        fewer.Sublist missing := by
  have consistent := Schema.consistent_of_resolved resolved
  have reached : Reached model (fun _ => True) arena := ⟨operations,fun _ _ => trivial,done⟩
  have valid := reached.valid_any consistent
  have shape := valid id node found
  have lists := consistent.classes node.cls shape.cls
  have flags := reached.flagged consistent id node found
  have start : AllValid (empty model).model (fun _ _ => True) (empty model).nodes := by
    intro id node found
    simp [empty] at found
  have unfilled : AllBoundFilled (empty model).nodes := by
    intro id node found
    simp [empty] at found
  have there : ((empty model).run operations).nodes[id]? = some node := by rw [done,found]
  obtain ⟨creator,created,filled,history⟩ :=
    run_history consistent start unfilled (Nat.zero_le id) there
  obtain rfl := reached.model_eq
  have given : arena.missingFields id = .ok (fieldNames node.cls fun position field =>
      lacks creator.isClone (node.isAssigned position) field) := by
    rw [missingFields_eq found shape.slots,
      fieldNames_congr fun _ _ => isNone_eq_lacks lists flags filled]
  refine ⟨creator,_,created,given,rfl,fun built => ?_,fun others => ?_⟩
  · rw [built]
    exact complete_iff (SetIn id · (empty arena.model) operations) (history built)
  · exact run_missing_sublist consistent valid others found given

def tracked : Schema where
  nodes := [
    { name := "Item"
      fields := [
        { name := "label", kind := .primitive .text },
        { name := "stamp", kind := .primitive .integer, policy := { copyMode := some .reset } },
        { name := "parent"
          kind := .single "Item"
          policy := { bound := false, copyMode := some .share } },
        { name := "note", kind := .primitive .text, policy := { bound := false } }] }]

def trackedRun : List Operation :=
  [.construct "Item" [some (.text "a"),some (.integer 3)],
   .clone 0 fun _ ref => ref,
   .set 0 "parent" (.node 1),
   .clone 0 fun _ ref => ref]

def trackedArena : Arena := (empty (tracked.resolvedModel ⟨[]⟩)).run trackedRun

theorem run_missing_exact_tracked :
    trackedArena.missingFields 0 = .ok [] ∧
    SetIn 0 "parent" (empty (tracked.resolvedModel ⟨[]⟩)) trackedRun ∧
    trackedArena.missingFields 1 = .ok ["stamp","parent"] ∧
    trackedArena.missingFields 2 = .ok ["stamp"] ∧
    ∀ others, ∃ fewer, (trackedArena.run others).missingFields 2 = .ok fewer ∧
      fewer.Sublist ["stamp"] := by
  have resolved : tracked.resolveWith ⟨[]⟩ = .ok (tracked.resolvedModel ⟨[]⟩) := rfl
  have done : (empty (tracked.resolvedModel ⟨[]⟩)).run trackedRun = trackedArena := rfl
  have complete : trackedArena.missingFields 0 = .ok [] := by decide
  have stamped : trackedArena.missingFields 2 = .ok ["stamp"] := by decide
  refine ⟨complete,?_,by decide,stamped,?_⟩
  · obtain ⟨creator,missing,created,given,_,ready,_⟩ :=
      run_missing_exact resolved done (show trackedArena.nodes[0]? = some _ from rfl)
    have built : (creator? 0 (empty (tracked.resolvedModel ⟨[]⟩)) trackedRun).map
        Operation.isClone = some false := by decide
    rw [created] at built
    have none : missing = [] := Except.ok.inj (given.symm.trans complete)
    exact (ready (Option.some.inj built)).mp none _ (.tail _ (.tail _ (.head _))) rfl rfl rfl
  · obtain ⟨_,missing,_,given,_,_,shrinks⟩ :=
      run_missing_exact resolved done (show trackedArena.nodes[2]? = some _ from rfl)
    cases Except.ok.inj (stamped.symm.trans given)
    exact shrinks

end NodeModel.Arena
