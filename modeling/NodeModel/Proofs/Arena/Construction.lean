import NodeModel.Proofs.Arena.CloneLaw
import NodeModel.Proofs.Arena.Frame

/-! Construction is exact: it succeeds for the arguments that the parameters take and for no others,
and adds one node that holds them. What fails, here or elsewhere, leaves the arena as it was. -/
namespace NodeModel.Arena

variable {model : Model} {held : String → ExternalRef → Prop} {arena : Arena} {cls : Model.Class}

/-- An argument that a parameter takes. -/
def Takes (arena : Arena) (cls : Model.Class) (param : Model.Param) (argument : Option Value) :
    Prop :=
  ∃ position field, locate cls param.field = .ok (position,field) ∧
    (argument = none → param.optional = true) ∧
    ∀ value, argument = some value →
      value.Fits (fun name ref => name = ref.type) arena.nodes field.kind

/-- Each slot gets the argument given for it, or keeps what it had. -/
theorem fillSlots_eq_ok (names : (cls.fields.map (·.name)).Nodup) {params : List Model.Param}
    {arguments : List (Option Value)} (each : List.Forall₂ (arena.Takes cls) params arguments)
    (distinct : (params.map (·.field)).Nodup) (slots : List (Option Value))
    (aligned : slots.length = cls.fields.length) :
    ∃ result, arena.fillSlots cls params arguments slots = .ok result ∧
      result.length = slots.length ∧
      ∀ (position : Nat) (field : Model.Field), cls.fields[position]? = some field →
        result[position]?.join =
          (((params.map (·.field)).zip arguments).lookup field.name).join.or
            slots[position]?.join := by
  induction each generalizing slots with
  | nil => exact ⟨slots,rfl,rfl,fun _ _ _ => rfl⟩
  | @cons param argument params arguments takes _ ih =>
    obtain ⟨place,target,located,absent,fits⟩ := takes
    obtain ⟨atPlace,named⟩ := (locate_eq_ok_iff names).mp located
    rw [List.map_cons,List.nodup_cons] at distinct
    -- Later parameters leave the slot of this one alone.
    have later : ((params.map (·.field)).zip arguments).lookup param.field = none :=
      lookup_zip_absent distinct.1 arguments
    rw [fillSlots,located]
    cases argument with
    | none =>
      obtain ⟨result,filled,length,slot⟩ := ih distinct.2 slots aligned
      refine ⟨result,?_,length,fun position field atField => ?_⟩
      · simp only [bind,Except.bind,absent rfl,if_true,filled]
      · rw [slot position field atField,List.map_cons,List.zip_cons_cons,List.lookup_cons]
        split
        next same =>
          rw [eq_of_beq same,later]
          rfl
        next => rfl
    | some value =>
      have checked := (checkValue_eq_ok_iff arena cls target value).mpr (fits value rfl)
      obtain ⟨result,filled,length,slot⟩ := ih distinct.2 (slots.set place (some value))
        (by simpa using aligned)
      refine ⟨result,?_,by simpa using length,fun position field atField => ?_⟩
      · simp only [bind,Except.bind,checked,filled]
      · have inside : place < slots.length := by
          rw [aligned]
          exact (List.getElem?_eq_some_iff.mp atPlace).1
        rw [slot position field atField,List.map_cons,List.zip_cons_cons,List.lookup_cons]
        split
        next same =>
          have here : field.name = param.field := eq_of_beq same
          have both := located.symm.trans ((locate_eq_ok_iff names).mpr ⟨atField,here⟩)
          obtain ⟨rfl,rfl⟩ := Prod.mk.inj (Except.ok.inj both)
          rw [here,later]
          simp [inside]
        next other =>
          have apart : place ≠ position := by
            rintro rfl
            cases Option.some.inj (atPlace.symm.trans atField)
            simp [named] at other
          rw [List.getElem?_set_ne apart]

/-- Slots are filled only if every parameter takes its argument. -/
theorem takes_of_fillSlots {params : List Model.Param}
    {arguments slots result : List (Option Value)} (arity : params.length = arguments.length)
    (filled : arena.fillSlots cls params arguments slots = .ok result) :
    List.Forall₂ (arena.Takes cls) params arguments := by
  induction params generalizing arguments slots with
  | nil =>
    cases arguments with
    | nil => exact .nil
    | cons => simp at arity
  | cons param params ih =>
    cases arguments with
    | nil => simp at arity
    | cons argument arguments =>
      have fewer : params.length = arguments.length := Nat.succ.inj arity
      rw [fillSlots] at filled
      cases located : locate cls param.field with
      | error fault => simp [located,bind,Except.bind] at filled
      | ok place =>
        cases argument with
        | none =>
          by_cases optional : param.optional = true
          · simp only [located,bind,Except.bind,optional,if_true] at filled
            exact .cons ⟨place.1,place.2,located,fun _ => optional,by simp⟩ (ih fewer filled)
          · simp [located,bind,Except.bind,optional,throw,throwThe,MonadExceptOf.throw] at filled
        | some value =>
          cases checked : arena.checkValue cls place.2 value with
          | error fault => simp [located,bind,Except.bind,checked] at filled
          | ok =>
            simp only [located,bind,Except.bind,checked] at filled
            have fits := (checkValue_eq_ok_iff arena cls place.2 value).mp checked
            refine .cons ⟨place.1,place.2,located,by simp,?_⟩ (ih fewer filled)
            rintro _ ⟨⟩
            exact fits

/-- Looked up by name, the arguments are those of the bound fields in order. -/
theorem lookup_arguments (lists : cls.Consistent) {arguments : List (Option Value)}
    (arity : cls.params.length = arguments.length) :
    List.Forall₂ (fun field argument =>
      ((cls.params.map (·.field)).zip arguments).lookup field.name = some argument)
      (cls.fields.filter (·.policy.bound)) arguments := by
  have long : (cls.params.map (·.field)).length = arguments.length := by simpa using arity
  have distinct : (((cls.params.map (·.field)).zip arguments).map (·.1)).Nodup := by
    rw [List.map_fst_zip (Nat.le_of_eq long)]
    exact lists.params_nodup
  refine List.forall₂_iff_get.mpr ⟨?_,fun position listed given => ?_⟩
  · rw [← long,lists.param_names,List.length_map]
  · have entry : ((cls.params.map (·.field)).zip arguments)[position]? =
        some (((cls.fields.filter (·.policy.bound)).get ⟨position,listed⟩).name,
          arguments.get ⟨position,given⟩) := by
      rw [List.getElem?_zip_eq_some,lists.param_names]
      simp [listed,given]
    exact lookup_of_getElem? distinct entry

/-- Whoever constructs a node has to give its required bound fields. -/
theorem lookup_required (lists : cls.Consistent) {arguments : List (Option Value)}
    (takes : List.Forall₂ (arena.Takes cls) cls.params arguments) {field : Model.Field}
    (member : field ∈ cls.fields) (bound : field.policy.bound = true)
    (required : field.policy.optional = false) :
    ∃ value, ((cls.params.map (·.field)).zip arguments).lookup field.name = some (some value) := by
  obtain ⟨same,looked⟩ := List.forall₂_iff_zip.mp (lookup_arguments lists takes.length_eq)
  have listed : field ∈ cls.fields.filter (·.policy.bound) :=
    List.mem_filter.mpr ⟨member,bound⟩
  obtain ⟨position,atField⟩ := List.getElem?_of_mem listed
  obtain ⟨inside,_⟩ := List.getElem?_eq_some_iff.mp atField
  have pair : (field,arguments[position]) ∈ (cls.fields.filter (·.policy.bound)).zip arguments :=
    List.mem_of_getElem? (List.getElem?_zip_eq_some.mpr
      ⟨atField,List.getElem?_eq_getElem (same ▸ inside)⟩)
  rw [lists.params,List.forall₂_map_left_iff] at takes
  obtain ⟨_,_,_,absent,_⟩ := (List.forall₂_iff_zip.mp takes).2 pair
  rw [looked pair]
  cases given : arguments[position] with
  | none => simpa [required] using absent given
  | some value => exact ⟨value,rfl⟩

/-- One node is new. It holds the arguments in its bound fields and the defaults in the others, and
nothing of it is assigned. -/
structure Constructed (arena : Arena) (cls : Model.Class) (arguments : List (Option Value))
    (id : NodeId) (grown : Arena) : Prop where
  number : id = arena.size
  node : ∃ node : Node, grown = { arena with nodes := arena.nodes.push node } ∧ node.cls = cls ∧
    node.slots.length = cls.fields.length ∧
    node.assigned = List.replicate cls.fields.length false
  bound : List.Forall₂ (fun field argument => grown.get id field.name = .ok argument)
    (cls.fields.filter (·.policy.bound)) arguments
  deferred : ∀ field ∈ cls.fields, field.policy.bound = false →
    ∃ default, field.default = some default ∧
      grown.get id field.name = .ok (Value.ofDefault default)

theorem construct_succeeds_iff (consistent : arena.model.Consistent) (name : String)
    (arguments : List (Option Value)) :
    (∃ id grown, arena.construct name arguments = .ok (id,grown)) ↔
      ∃ cls ∈ arena.model.classes, cls.name = name ∧
        List.Forall₂ (arena.Takes cls) cls.params arguments := by
  constructor
  · rintro ⟨id,grown,done⟩
    obtain ⟨cls,slots,found,arity,filled,_⟩ := construct_eq_ok_iff.mp done
    have member : cls ∈ arena.model.classes := List.mem_of_find?_eq_some found
    have named : cls.name = name := by simpa using List.find?_some found
    exact ⟨cls,member,named,takes_of_fillSlots arity.symm filled⟩
  · rintro ⟨cls,member,rfl,takes⟩
    have lists := consistent.classes cls member
    obtain ⟨slots,filled,_⟩ := fillSlots_eq_ok lists.names takes lists.params_nodup
      (cls.fields.map initialSlot) (by simp)
    exact ⟨_,_,construct_eq_ok_iff.mpr ⟨cls,slots,consistent.class?_eq_some member,
      takes.length_eq.symm,filled,rfl,rfl⟩⟩

theorem Node.isAssigned_of_clear {node : Node} {count : Nat}
    (clear : node.assigned = List.replicate count false) (position : Nat) :
    node.isAssigned position = false := by
  rw [Node.isAssigned,clear,List.getElem?_replicate]
  split <;> rfl

/-- Each slot of the new node is looked up among the arguments, then among the defaults. -/
theorem construct_slots (consistent : arena.model.Consistent) {name : String}
    {arguments : List (Option Value)} {id : NodeId} {grown : Arena}
    (done : arena.construct name arguments = .ok (id,grown)) :
    ∃ node : Node, id = arena.size ∧ grown = { arena with nodes := arena.nodes.push node } ∧
      node.cls ∈ arena.model.classes ∧ node.cls.name = name ∧
      node.slots.length = node.cls.fields.length ∧
      node.assigned = List.replicate node.cls.fields.length false ∧
      List.Forall₂ (arena.Takes node.cls) node.cls.params arguments ∧
      ∀ (position : Nat) (field : Model.Field), node.cls.fields[position]? = some field →
        node.slot position = (((node.cls.params.map (·.field)).zip arguments).lookup
          field.name).join.or (initialSlot field) := by
  obtain ⟨cls,slots,found,arity,filled,rfl,rfl⟩ := construct_eq_ok_iff.mp done
  have member : cls ∈ arena.model.classes := List.mem_of_find?_eq_some found
  have named : cls.name = name := by simpa using List.find?_some found
  have lists := consistent.classes cls member
  have takes := takes_of_fillSlots arity.symm filled
  obtain ⟨result,filled',length,slot⟩ := fillSlots_eq_ok lists.names takes lists.params_nodup
    (cls.fields.map initialSlot) (by simp)
  cases Except.ok.inj (filled.symm.trans filled')
  rw [List.length_map] at length
  refine ⟨_,rfl,rfl,member,named,length,by rw [length],takes,fun position field atField => ?_⟩
  rw [Node.slot,slot position field atField,List.getElem?_map,
    show cls.fields[position]? = some field from atField]
  rfl

theorem constructed (consistent : arena.model.Consistent)
    (valid : AllValid arena.model (fun _ _ => True) arena.nodes) {name : String}
    {arguments : List (Option Value)} {id : NodeId} {grown : Arena}
    (done : arena.construct name arguments = .ok (id,grown)) :
    ∃ cls ∈ arena.model.classes, cls.name = name ∧ Constructed arena cls arguments id grown := by
  have valid' := construct_valid consistent (fun _ _ _ => trivial) valid done
  obtain ⟨node,rfl,rfl,member,named,aligned,clear,takes,slot⟩ := construct_slots consistent done
  have lists := consistent.classes node.cls member
  have contents {field : Model.Field} (inside : field ∈ node.cls.fields) :
      ({ arena with nodes := arena.nodes.push node } : Arena).get arena.size field.name =
        .ok ((((node.cls.params.map (·.field)).zip arguments).lookup field.name).join.or
          (initialSlot field)) := by
    obtain ⟨position,atField⟩ := List.getElem?_of_mem inside
    rw [← slot position field atField]
    exact get_eq_ok consistent valid' Array.getElem?_push_size atField
  refine ⟨node.cls,member,named,rfl,⟨node,rfl,rfl,aligned,clear⟩,?_,fun field inside deferred => ?_⟩
  · obtain ⟨same,looked⟩ := List.forall₂_iff_zip.mp (lookup_arguments lists takes.length_eq)
    refine List.forall₂_iff_zip.mpr ⟨same,fun pair => ?_⟩
    obtain ⟨inside,bound⟩ := List.mem_filter.mp (List.of_mem_zip pair).1
    rw [contents inside,looked pair,initialSlot_eq lists inside,bound]
    simp
  · obtain ⟨default,known⟩ : ∃ default, field.default = some default := by
      rw [lists.defaults field inside,deferred]
      cases field.policy.optional <;> exact ⟨_,rfl⟩
    refine ⟨default,known,?_⟩
    rw [contents inside,lookup_zip_absent (lists.not_mem_params inside deferred),initialSlot,known]
    rfl

def Fails (arena : Arena) (fault : Fault) : Operation → Prop
  | .construct cls arguments => arena.construct cls arguments = .error fault
  | .set id field value => arena.set id field value = .error fault
  | .clone id copier => (arena.clone copier id).result = .error fault

/-- Clones may add nodes before they fail, but no clone of an existing node fails. -/
theorem apply_of_fails (consistent : model.Consistent) (valid : AllValid model held arena.nodes)
    {operation : Operation} {fault : Fault} (fails : arena.Fails fault operation) :
    arena.apply operation = arena := by
  cases operation with
  | construct cls arguments =>
    have failed : arena.construct cls arguments = .error fault := fails
    simp only [apply,failed]
  | set id field value =>
    have failed : arena.set id field value = .error fault := fails
    simp only [apply,failed]
  | clone id copier =>
    have failed : (arena.clone copier id).result = .error fault := fails
    by_cases inArena : id < arena.size
    · obtain ⟨copy,_,_,same,_⟩ := clone_existing consistent valid copier inArena
      simp [same] at failed
    · simp only [apply,clone_missing copier (Nat.not_lt.mp inArena)]

/-- In every run over a resolved model a construction succeeds exactly if the class exists and each
of its parameters takes the argument in its place. It then adds one node that holds the arguments.
An operation that fails changes nothing. For constructions and assignments this is in the type of
their results, as a failure comes without an arena; a clone adds nodes as it goes, so there it is a
fact about runs: only a clone of a missing node fails, and it fails at once. -/
theorem run_construct_exact {schema : Schema} {externals : NameSet} {model : Model} {arena : Arena}
    (resolved : schema.resolveWith externals = .ok model)
    (reached : Reached model (fun _ => True) arena) :
    (∀ name arguments, (∃ id grown, arena.construct name arguments = .ok (id,grown)) ↔
      ∃ cls ∈ model.classes, cls.name = name ∧
        List.Forall₂ (arena.Takes cls) cls.params arguments) ∧
    (∀ name arguments id grown, arena.construct name arguments = .ok (id,grown) →
      ∃ cls ∈ model.classes, cls.name = name ∧ Constructed arena cls arguments id grown) ∧
    ∀ operation fault, arena.Fails fault operation → arena.apply operation = arena := by
  have consistent := Schema.consistent_of_resolved resolved
  have valid := reached.valid_any consistent
  obtain rfl := reached.model_eq
  exact ⟨construct_succeeds_iff consistent,fun _ _ _ _ => constructed consistent valid,
    fun _ _ => apply_of_fails consistent valid⟩

/-- A second group can be made with the first as a member, but no item without a label. -/
theorem run_construct_exact_sample :
    Reached sampleModel (fun _ => True) sampleArena ∧
    (∃ cls ∈ sampleModel.classes, cls.name = "Group" ∧ ∃ grown, Constructed sampleArena cls
      [some (.text "c"),some (.list [1,0]),none,some (.external ⟨"Type",9⟩)] 5 grown) ∧
    sampleArena.Fails (.missingArgument "Item" "label") (.construct "Item" [none]) ∧
    sampleArena.apply (.construct "Item" [none]) = sampleArena ∧
    sampleArena.Fails (.unknownNode 9) (.clone 9 fun _ ref => ref) ∧
    sampleArena.apply (.clone 9 fun _ ref => ref) = sampleArena := by
  have reached : Reached sampleModel (fun _ => True) sampleArena :=
    sampleArena_reached fun _ _ => trivial
  obtain ⟨_,adds,atomic⟩ := run_construct_exact sample_resolved reached
  obtain ⟨cls,member,named,made⟩ := adds "Group"
    [some (.text "c"),some (.list [1,0]),none,some (.external ⟨"Type",9⟩)] 5 _ rfl
  have missing : sampleArena.Fails (.missingArgument "Item" "label") (.construct "Item" [none]) :=
    rfl
  have unknown : sampleArena.Fails (.unknownNode 9) (.clone 9 fun _ ref => ref) := by
    show (sampleArena.clone (fun _ ref => ref) 9).result = _
    decide
  exact ⟨reached,⟨cls,member,named,_,made⟩,missing,atomic _ _ missing,unknown,atomic _ _ unknown⟩

end NodeModel.Arena
