import NodeModel.Proofs.Arena.Run

/-! What operations leave alone: a node that is there stays as it is, unless one of its own fields
is assigned. -/
namespace NodeModel.Arena

variable {model : Model} {held : String → ExternalRef → Prop} {arena : Arena}

structure Assigns (arena : Arena) (operation : Operation) (id : NodeId) (node : Node)
    (position : Nat) (field : Model.Field) (value : Value) : Prop where
  operation_eq : operation = .set id field.name value
  succeeds : ∃ changed, arena.set id field.name value = .ok changed
  atField : node.cls.fields[position]? = some field
  deferred : field.policy.bound = false
  unassigned : node.isAssigned position = false
  after : (arena.apply operation).nodes[id]? = some (node.assign position value)

theorem Assigns.of_set (consistent : arena.model.Consistent)
    (valid : AllValid arena.model held arena.nodes) {id : NodeId} {node : Node}
    (found : arena.nodes[id]? = some node) {position : Nat} {field : Model.Field}
    (atField : node.cls.fields[position]? = some field) {value : Value} {changed : Arena}
    (done : arena.set id field.name value = .ok changed) :
    Assigns arena (.set id field.name value) id node position field value := by
  obtain ⟨node',place,other,found',located,deferred,unassigned,_,rfl⟩ := set_eq_ok_iff.mp done
  cases Option.some.inj (found.symm.trans found')
  have names := (consistent.classes _ (valid _ _ found).cls).names
  have both := located.symm.trans ((locate_eq_ok_iff names).mpr ⟨atField,rfl⟩)
  obtain ⟨rfl,rfl⟩ := Prod.mk.inj (Except.ok.inj both)
  refine ⟨rfl,⟨_,done⟩,atField,deferred,unassigned,?_⟩
  simp only [apply,done,Array.getElem?_modify,if_true,found,Option.map_some]

/-- One operation leaves a node as it is or assigns one of its fields. -/
theorem apply_found (consistent : arena.model.Consistent)
    (valid : AllValid arena.model held arena.nodes) (operation : Operation) {id : NodeId}
    {node : Node} (found : arena.nodes[id]? = some node) :
    (arena.apply operation).nodes[id]? = some node ∨
      ∃ position field value, Assigns arena operation id node position field value := by
  cases operation with
  | construct cls arguments =>
    left
    simp only [apply]
    split
    next done =>
      obtain ⟨_,_,_,_,_,_,rfl⟩ := construct_eq_ok_iff.mp done
      exact Keeps.push _ _ id node found
    next => exact found
  | set other name value =>
    cases done : arena.set other name value with
    | error fault =>
      left
      simpa only [apply,done] using found
    | ok changed =>
      obtain ⟨node',position,field,found',located,_,_,_,rfl⟩ := set_eq_ok_iff.mp done
      by_cases same : other = id
      · subst same
        cases Option.some.inj (found.symm.trans found')
        have names := (consistent.classes _ (valid _ _ found).cls).names
        obtain ⟨atField,rfl⟩ := (locate_eq_ok_iff names).mp located
        exact .inr ⟨position,field,value,.of_set consistent valid found atField done⟩
      · left
        simp only [apply,done,Array.getElem?_modify,if_neg same,found]
  | clone other copier =>
    left
    by_cases inArena : other < arena.size
    · obtain ⟨_,_,_,same,cloned⟩ := clone_existing consistent valid copier inArena
      simp only [apply,same]
      exact cloned.keeps id node found
    · simpa only [apply,clone_missing copier (Nat.not_lt.mp inArena)] using found

def Operation.SetsWithin (region : NodeId → Prop) : Operation → Prop
  | .set id _ _ => region id
  | _ => True

/-- A run that assigns fields within a region leaves the nodes outside as they are. -/
theorem run_found (consistent : arena.model.Consistent)
    (valid : AllValid arena.model (fun _ _ => True) arena.nodes) {region : NodeId → Prop}
    {operations : List Operation}
    (within : ∀ operation ∈ operations, operation.SetsWithin region) {id : NodeId}
    (outside : ¬ region id) {node : Node} (found : arena.nodes[id]? = some node) :
    (arena.run operations).nodes[id]? = some node := by
  induction operations generalizing arena with
  | nil => exact found
  | cons operation operations ih =>
    have next : (arena.apply operation).nodes[id]? = some node := by
      rcases apply_found consistent valid operation found with kept | ⟨_,_,_,assigns⟩
      · exact kept
      · have first := within operation List.mem_cons_self
        rw [assigns.operation_eq] at first
        exact absurd first outside
    refine ih ((apply_model arena operation).symm ▸ consistent) ?_
      (fun other member => within other (List.mem_cons_of_mem _ member)) next
    exact apply_valid consistent (fun _ _ _ => trivial) valid operation.respects_all

theorem Reached.model_eq {allowed : Operation → Prop} (reached : Reached model allowed arena) :
    arena.model = model := by
  obtain ⟨operations,_,rfl⟩ := reached
  exact run_model (empty model) operations

theorem Reached.next {allowed : Operation → Prop} (reached : Reached model allowed arena)
    {operation : Operation} {after : Arena} (done : arena.apply operation = after)
    (allows : allowed operation) : Reached model allowed after := by
  obtain ⟨operations,each,rfl⟩ := reached
  refine ⟨operations ++ [operation],?_,by simpa [Arena.run] using done⟩
  intro other listed
  rcases List.mem_append.mp listed with before | last
  · exact each other before
  · exact List.mem_singleton.mp last ▸ allows

/-- What holds of the empty arena and survives every operation on a valid one holds throughout. -/
theorem Reached.induction {allowed : Operation → Prop} {P : Arena → Prop}
    (reached : Reached model allowed arena) (consistent : model.Consistent)
    (start : P (empty model))
    (step : ∀ (arena : Arena) (operation : Operation), arena.model = model →
      AllValid model (fun _ _ => True) arena.nodes → P arena → P (arena.apply operation)) :
    P arena := by
  obtain ⟨operations,each,rfl⟩ := reached
  induction operations using List.reverseRecOn with
  | nil => exact start
  | append_singleton operations operation ih =>
    have fewer : ∀ other ∈ operations, allowed other :=
      fun other member => each other (List.mem_append_left _ member)
    have before : Reached model allowed ((empty model).run operations) := ⟨operations,fewer,rfl⟩
    rw [Arena.run,List.foldl_append]
    exact step _ operation before.model_eq (before.valid_any consistent) (ih fewer)

end NodeModel.Arena
