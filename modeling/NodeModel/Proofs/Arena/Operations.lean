import NodeModel.Proofs.Arena.Valid
import NodeModel.Proofs.Outcome

/-! What the operations that fill slots do, and that they keep an arena valid. -/
namespace NodeModel.Arena

variable {model : Model} {held : String → ExternalRef → Prop}

theorem node_eq_ok_iff {arena : Arena} {id : NodeId} {node : Node} :
    arena.node id = .ok node ↔ arena.nodes[id]? = some node := by
  unfold Arena.node
  cases arena.nodes[id]? <;> simp

/-- With distinct names, a field is found by its name at its own position. -/
theorem locate_eq_ok_iff {cls : Model.Class} (names : (cls.fields.map (·.name)).Nodup)
    {name : String} {position : Nat} {field : Model.Field} :
    locate cls name = .ok (position,field) ↔
      cls.fields[position]? = some field ∧ field.name = name := by
  unfold locate Model.Class.position? Model.Class.field?
  have unique {i j : Nat} {a b : Model.Field} (atI : cls.fields[i]? = some a)
      (atJ : cls.fields[j]? = some b) (same : a.name = b.name) : i = j := by
    have left : (cls.fields.map (·.name))[i]? = some a.name := by simp [atI]
    have right : (cls.fields.map (·.name))[j]? = some a.name := by simp [atJ,same]
    exact (List.getElem?_inj (List.getElem?_eq_some_iff.mp left).1 names).mp (left.trans right.symm)
  cases index : cls.fields.findIdx? (·.name == name) with
  | none =>
    simp only [reduceCtorEq,false_iff,not_and]
    intro found same
    have absent := List.findIdx?_eq_none_iff.mp index field (List.mem_of_getElem? found)
    simp [same] at absent
  | some i =>
    obtain ⟨bound,named,_⟩ := List.findIdx?_eq_some_iff_getElem.mp index
    have atI : cls.fields[i]? = some cls.fields[i] := List.getElem?_eq_getElem bound
    cases first : cls.fields.find? (·.name == name) with
    | none => exact absurd named (List.find?_eq_none.mp first _ (List.getElem_mem bound))
    | some other =>
      have other_named : other.name = name := by simpa using List.find?_some first
      obtain ⟨j,atJ⟩ := List.getElem?_of_mem (List.mem_of_find?_eq_some first)
      have here : i = j := unique atI atJ (by simp_all)
      simp only [Except.ok.injEq,Prod.mk.injEq]
      constructor
      · rintro ⟨rfl,rfl⟩
        exact ⟨here ▸ atJ,other_named⟩
      · rintro ⟨found,same⟩
        have there : i = position := unique atI found (by simp_all)
        subst there here
        exact ⟨rfl,Option.some.inj (atJ.symm.trans found)⟩

/-- Each clone rule stands for the field at one position. -/
theorem locate_rule {cls : Model.Class} (lists : cls.Consistent) {rule : Model.CloneRule}
    (member : rule ∈ cls.cloneRules) :
    ∃ position field, cls.fields[position]? = some field ∧ rule.step = field.step ∧
      locate cls rule.field = .ok (position,field) := by
  rw [lists.cloneRules] at member
  obtain ⟨field,inside,rfl⟩ := List.mem_map.mp member
  obtain ⟨position,atField⟩ := List.getElem?_of_mem inside
  exact ⟨position,field,atField,rfl,(locate_eq_ok_iff lists.names).mpr ⟨atField,rfl⟩⟩

/-- The check on a value decides whether the value fits. -/
theorem checkValue_eq_ok_iff (arena : Arena) (cls : Model.Class) (field : Model.Field)
    (value : Value) :
    arena.checkValue cls field value = .ok () ↔
      value.Fits (fun name ref => name = ref.type) arena.nodes field.kind := by
  have member (target : String) (id : NodeId) (mismatch : Fault) :
      ((do if !(← arena.classOf id).isSubclassOf target then throw mismatch) :
        Except Fault PUnit) = .ok () ↔
      ∃ node, arena.nodes[id]? = some node ∧ node.cls.isSubclassOf target = true := by
    unfold classOf Arena.node
    cases found : arena.nodes[id]? with
    | none => simp [bind,Except.bind]
    | some node =>
      cases typed : node.cls.isSubclassOf target <;>
        simp [bind,Except.bind,pure,Except.pure,throw,throwThe,MonadExceptOf.throw,typed]
  unfold checkValue
  by_cases shape : value.hasShape field.kind = true
  · have fits := (value.hasShape_iff field.kind).mp shape
    cases kind : field.kind.target? with
    | none =>
      simp only [shape,Bool.not_true,Bool.false_eq_true,if_false,bind,Except.bind,pure,Except.pure,
        true_iff]
      exact ⟨fits,by simp [kind]⟩
    | some target =>
      simp only [shape,Bool.not_true,Bool.false_eq_true,if_false]
      refine (forM_eq_ok_iff _ _).trans ((forall₂_congr fun id _ => member target id _).trans ?_)
      exact ⟨fun targets => ⟨fits,by simpa [kind] using targets⟩,fun ok => ok.targets target kind⟩
  · simp only [shape]
    constructor
    · intro ok
      cases ok
    · intro ok
      exact absurd ((value.hasShape_iff field.kind).mpr ok.shape) shape

/-- What filling does to one slot: nothing, or a value that fits comes in for a parameter. -/
def Filled (arena : Arena) (cls : Model.Class) (params : List Model.Param)
    (slots result : List (Option Value)) (position : Nat) : Prop :=
  result[position]? = slots[position]? ∨
  ∃ (field : Model.Field) (value : Value), cls.fields[position]? = some field ∧
    (∃ param ∈ params, param.field = field.name) ∧
    value.Fits (fun name ref => name = ref.type) arena.nodes field.kind ∧
    result[position]? = some (some value)

theorem Filled.cons {arena : Arena} {cls : Model.Class} {params : List Model.Param}
    {slots result : List (Option Value)} {position : Nat} (param : Model.Param)
    (filled : Filled arena cls params slots result position) :
    Filled arena cls (param :: params) slots result position := by
  refine filled.imp_right ?_
  rintro ⟨field,value,atField,⟨other,member,named⟩,fits,atSlot⟩
  exact ⟨field,value,atField,⟨other,List.mem_cons_of_mem _ member,named⟩,fits,atSlot⟩

theorem fillSlots_filled {arena : Arena} {cls : Model.Class}
    (names : (cls.fields.map (·.name)).Nodup) {params : List Model.Param}
    {arguments slots result : List (Option Value)}
    (filled : arena.fillSlots cls params arguments slots = .ok result) :
    result.length = slots.length ∧ ∀ position, Filled arena cls params slots result position := by
  induction params generalizing arguments slots with
  | nil =>
    cases filled
    exact ⟨rfl,fun _ => .inl rfl⟩
  | cons param params ih =>
    cases arguments with
    | nil =>
      cases filled
      exact ⟨rfl,fun _ => .inl rfl⟩
    | cons argument arguments =>
      rw [fillSlots] at filled
      cases located : locate cls param.field with
      | error fault => simp [located,bind,Except.bind] at filled
      | ok found =>
        obtain ⟨place,field⟩ := found
        obtain ⟨atPlace,named⟩ := (locate_eq_ok_iff names).mp located
        cases argument with
        | none =>
          by_cases optional : param.optional = true
          · simp only [located,bind,Except.bind,optional,if_true] at filled
            exact ⟨(ih filled).1,fun position => ((ih filled).2 position).cons param⟩
          · simp [located,bind,Except.bind,optional,throw,throwThe,MonadExceptOf.throw] at filled
        | some value =>
          cases checked : arena.checkValue cls field value with
          | error fault => simp [located,bind,Except.bind,checked] at filled
          | ok =>
            simp only [located,bind,Except.bind,checked] at filled
            have rest := ih filled
            refine ⟨by simpa using rest.1,fun position => ?_⟩
            rcases (rest.2 position).cons param with kept | changed
            · rw [List.getElem?_set] at kept
              split at kept
              next here =>
                subst here
                split at kept
                next inside =>
                  refine .inr ⟨field,value,atPlace,⟨param,List.mem_cons_self,named.symm⟩,?_,kept⟩
                  exact (checkValue_eq_ok_iff ..).mp checked
                next outside =>
                  exact .inl (kept.trans (List.getElem?_eq_none (Nat.not_lt.mp outside)).symm)
              next => exact .inl kept
            · exact .inr changed

theorem construct_eq_ok_iff {arena grown : Arena} {name : String}
    {arguments : List (Option Value)} {id : NodeId} :
    arena.construct name arguments = .ok (id,grown) ↔
      ∃ cls slots, arena.model.class? name = some cls ∧ arguments.length = cls.params.length ∧
        arena.fillSlots cls cls.params arguments (cls.fields.map initialSlot) = .ok slots ∧
        arena.size = id ∧ { arena with
          nodes := arena.nodes.push ⟨cls,slots,List.replicate slots.length false⟩ } = grown := by
  unfold construct
  cases arena.model.class? name with
  | none => simp [throw,throwThe,MonadExceptOf.throw]
  | some cls =>
    by_cases arity : arguments.length = cls.params.length
    · simp only [arity,bne_self_eq_false,Bool.false_eq_true,if_false,Option.some.injEq]
      cases filled : arena.fillSlots cls cls.params arguments (cls.fields.map initialSlot) with
      | error fault => simp [bind,Except.bind,filled]
      | ok slots => simp [bind,Except.bind,filled,pure,Except.pure]
    · simp [arity,throw,throwThe,MonadExceptOf.throw,bind,Except.bind]

theorem set_eq_ok_iff {arena changed : Arena} {id : NodeId} {name : String} {value : Value} :
    arena.set id name value = .ok changed ↔
      ∃ node position field, arena.nodes[id]? = some node ∧
        locate node.cls name = .ok (position,field) ∧ field.policy.bound = false ∧
        node.isAssigned position = false ∧
        value.Fits (fun name ref => name = ref.type) arena.nodes field.kind ∧
        { arena with nodes := arena.nodes.modify id (·.assign position value) } = changed := by
  unfold Arena.set Arena.node
  cases found : arena.nodes[id]? with
  | none => simp [bind,Except.bind]
  | some node =>
    cases located : locate node.cls name with
    | error fault => simp [bind,Except.bind,located]
    | ok place =>
      obtain ⟨position,field⟩ := place
      simp only [← checkValue_eq_ok_iff arena node.cls]
      cases bound : field.policy.bound <;> cases assigned : node.isAssigned position <;>
        cases checked : arena.checkValue node.cls field value <;>
        simp [bind,Except.bind,pure,Except.pure,throw,throwThe,MonadExceptOf.throw,located,bound,
          assigned,checked]

/-- What a field holds at first suits its kind and refers to no node. -/
theorem initialSlot_fits {cls : Model.Class} (consistent : cls.Consistent) {field : Model.Field}
    (member : field ∈ cls.fields) (nodes : Array Node) {value : Value}
    (initial : initialSlot field = some value) :
    value.Fits held nodes field.kind ∧ value.nodeIds = [] := by
  rw [initialSlot,consistent.defaults field member] at initial
  split at initial
  next => simp at initial
  next =>
    split at initial
    next => simp [Value.ofDefault] at initial
    next =>
      cases kind : field.kind with
      | single => simp [kind,Model.Default.sentinel,Value.ofDefault] at initial
      | list target =>
        simp only [kind,Model.Default.sentinel,Value.ofDefault,Option.bind_some,
          Option.some.injEq] at initial
        subst initial
        exact ⟨⟨trivial,by simp [Value.nodeIds]⟩,rfl⟩
      | primitive primitive =>
        cases primitive <;>
          simp only [kind,Model.Default.sentinel,Value.ofDefault,Option.bind_some,
            Option.some.injEq,reduceCtorEq] at initial <;>
          subst initial <;>
          exact ⟨⟨trivial,by simp [FieldKind.target?]⟩,rfl⟩

theorem construct_valid {arena grown : Arena} {name : String} {arguments : List (Option Value)}
    {id : NodeId} (consistent : arena.model.Consistent)
    (weaker : ∀ name ref, name = ref.type → held name ref)
    (valid : AllValid arena.model held arena.nodes)
    (done : arena.construct name arguments = .ok (id,grown)) :
    AllValid grown.model held grown.nodes := by
  obtain ⟨cls,slots,found,_,filled,rfl,rfl⟩ := construct_eq_ok_iff.mp done
  have member : cls ∈ arena.model.classes := List.mem_of_find?_eq_some found
  have lists := consistent.classes cls member
  obtain ⟨length,each⟩ := fillSlots_filled lists.names filled
  have aligned : slots.length = cls.fields.length := by simpa using length
  -- Each value of the new node is a default or an argument that was checked.
  have source (position : Nat) (field : Model.Field) (value : Value)
      (atField : cls.fields[position]? = some field)
      (atSlot : slots[position]? = some (some value)) :
      value.Fits held arena.nodes field.kind ∧ ∀ child ∈ value.nodeIds, child < arena.size := by
    rcases each position with kept | ⟨field',value',atField',_,fits,atSlot'⟩
    · rw [List.getElem?_map,atField,atSlot] at kept
      obtain ⟨fits,none⟩ := initialSlot_fits lists (List.mem_of_getElem? atField) arena.nodes
        (Option.some.inj kept).symm
      exact ⟨fits,by simp [none]⟩
    · cases Option.some.inj (atField.symm.trans atField')
      cases Option.some.inj (Option.some.inj (atSlot.symm.trans atSlot'))
      refine ⟨⟨fits.shape.imp weaker,fits.targets⟩,fun child inside => ?_⟩
      obtain ⟨node,existing⟩ := fits.exists inside
      exact lt_size_of_found existing
  exact valid.push ⟨member,aligned,by simpa using aligned,
    fun position field value atField atSlot => (source position field value atField atSlot).1,
    fun position field value atField _ atSlot => (source position field value atField atSlot).2⟩

theorem getElem?_modify_assign {nodes : Array Node} {id other : NodeId} {position : Nat}
    {value : Value} {node : Node} (found : (nodes.modify id (·.assign position value))[other]? =
      some node) :
    (other ≠ id ∧ nodes[other]? = some node) ∨
    (other = id ∧ ∃ before, nodes[id]? = some before ∧ node = before.assign position value) := by
  rw [Array.getElem?_modify] at found
  split at found
  next same =>
    subst same
    obtain ⟨before,existing,rfl⟩ := Option.map_eq_some_iff.mp found
    exact .inr ⟨rfl,before,existing,rfl⟩
  next apart => exact .inl ⟨Ne.symm apart,found⟩

theorem ClassesKept.modify_assign (nodes : Array Node) (id : NodeId) (position : Nat)
    (value : Value) : ClassesKept nodes (nodes.modify id (·.assign position value)) := by
  intro other node found
  rw [Array.getElem?_modify]
  split
  next => exact ⟨node.assign position value,by simp [found],rfl⟩
  next => exact ⟨node,found,rfl⟩

theorem set_valid {arena changed : Arena} {id : NodeId} {name : String} {value : Value}
    (consistent : arena.model.Consistent) (weaker : ∀ name ref, name = ref.type → held name ref)
    (valid : AllValid arena.model held arena.nodes)
    (done : arena.set id name value = .ok changed) :
    AllValid changed.model held changed.nodes := by
  obtain ⟨node,position,field,found,located,deferred,_,fits,rfl⟩ := set_eq_ok_iff.mp done
  have old := valid id node found
  have lists := consistent.classes node.cls old.cls
  obtain ⟨atField,_⟩ := (locate_eq_ok_iff lists.names).mp located
  have kept := ClassesKept.modify_assign arena.nodes id position value
  intro other node' found'
  rcases getElem?_modify_assign found' with ⟨_,same⟩ | ⟨rfl,before,existing,rfl⟩
  · exact (valid other node' same).mono kept
  · cases Option.some.inj (found.symm.trans existing)
    refine ⟨old.cls,by simpa [Node.assign] using old.slots,
      by simpa [Node.assign] using old.assigned,
      fun place field' value' atField' atSlot => ?_,
      fun place field' value' atField' owns atSlot => ?_⟩
    all_goals
      simp only [Node.assign,List.getElem?_set] at atField' atSlot
      split at atSlot
    next here =>
      subst here
      cases Option.some.inj (atField.symm.trans atField')
      split at atSlot
      next =>
        cases atSlot
        exact Value.Fits.mono ⟨fits.shape.imp weaker,fits.targets⟩ kept
      next => simp at atSlot
    next => exact (old.fits place field' value' atField' atSlot).mono kept
    next here =>
      -- The field set is deferred, so it owns nothing.
      subst here
      cases Option.some.inj (atField.symm.trans atField')
      have bound := lists.bound_of_owns (List.mem_of_getElem? atField) owns
      simp [deferred] at bound
    next => exact old.owned place field' value' atField' owns atSlot

end NodeModel.Arena
