import NodeModel.Proofs.Arena.Safety

/-! Ownership: owned children are older than their owners, so cloning and comparison come to an end
however the other references run. -/
namespace NodeModel.Arena

/-- A clone of `owner` gets a child of its own for `child`. -/
def Owns (arena : Arena) (owner child : NodeId) : Prop :=
  ∃ node, arena.nodes[owner]? = some node ∧ ∃ rule ∈ node.cls.cloneRules,
    (rule.step = .cloneChild ∨ rule.step = .cloneList) ∧
    ∃ value, arena.get owner rule.field = .ok (some value) ∧ child ∈ value.nodeIds

theorem owns_eq_true {step : Model.CloneStep} :
    step.owns = true ↔ step = .cloneChild ∨ step = .cloneList := by
  cases step <;> simp [Model.CloneStep.owns]

variable {model : Model} {held : String → ExternalRef → Prop} {arena : Arena}

theorem owns_iff (consistent : model.Consistent) (valid : AllValid model held arena.nodes)
    {owner child : NodeId} {node : Node} (found : arena.nodes[owner]? = some node) :
    arena.Owns owner child ↔ child ∈ node.owned := by
  have shape := valid owner node found
  have lists := consistent.classes node.cls shape.cls
  constructor
  · rintro ⟨node',found',rule,member,step,value,given,inside⟩
    cases Option.some.inj (found.symm.trans found')
    obtain ⟨position,field,atField,same,located⟩ := locate_rule lists member
    obtain ⟨_,named⟩ := (locate_eq_ok_iff lists.names).mp located
    rw [← named,get_eq_ok consistent valid found atField] at given
    refine Node.mem_owned_of_slot atField (mem_ownedIds.mpr ⟨?_,value,Except.ok.inj given,inside⟩)
    exact owns_eq_true.mpr (same ▸ step)
  · intro member
    obtain ⟨position,field,value,atField,owns,atSlot,inside⟩ := Node.mem_owned.mp member
    have rule : ⟨field.name,field.step⟩ ∈ node.cls.cloneRules := by
      rw [lists.cloneRules]
      exact List.mem_map_of_mem (List.mem_of_getElem? atField)
    refine ⟨node,found,_,rule,owns_eq_true.mp owns,value,?_,inside⟩
    rw [get_eq_ok consistent valid found atField,Node.slot,atSlot]
    rfl

theorem Owns.lt (consistent : model.Consistent) (valid : AllValid model held arena.nodes)
    {owner child : NodeId} (owns : arena.Owns owner child) : child < owner := by
  obtain ⟨node,found,_⟩ := id owns
  exact ((valid owner node found).owned_lt ((owns_iff consistent valid found).mp owns)).1

theorem Owns.mono {grown : Arena} (consistent : model.Consistent)
    (valid : AllValid model held arena.nodes) (valid' : AllValid model held grown.nodes)
    (kept : Keeps arena.nodes grown.nodes) {owner child : NodeId}
    (owns : arena.Owns owner child) : grown.Owns owner child := by
  obtain ⟨node,found,_⟩ := id owns
  exact (owns_iff consistent valid' (kept owner node found)).mpr
    ((owns_iff consistent valid found).mp owns)

/-- The recursion of a clone, and of a comparison, ends by itself: it gives one outcome with every
fuel above the number of the node it starts from. -/
theorem clone_outcome (consistent : model.Consistent) (valid : AllValid model held arena.nodes)
    (copier : Copier) (id : NodeId) :
    ∃ outcome, (∀ fuel, id < fuel →
        (cloneNode copier fuel id).run.run ⟨arena.nodes,[]⟩ = outcome) ∧
      (arena.clone copier id).result = outcome.1 ∧
      ∀ other, outcome.1 ≠ .error (.endlessOwnership other) := by
  by_cases inArena : id < arena.size
  · obtain ⟨copy,after,run,same,_⟩ := clone_existing consistent valid copier inArena
    exact ⟨(.ok copy,after),run,by rw [same],by simp⟩
  · have missing := Nat.not_lt.mp inArena
    refine ⟨(.error (.unknownNode id),⟨arena.nodes,[]⟩),fun fuel enough => ?_,?_,by simp⟩
    · exact cloneNode_missing (Array.getElem?_eq_none missing) (Nat.zero_lt_of_lt enough)
    · rw [clone_missing copier missing]

theorem node_missing {id : NodeId} (missing : arena.size ≤ id) :
    arena.node id = .error (.unknownNode id) := by
  rw [Arena.node,Array.getElem?_eq_none missing]

theorem equalNodes_missing {left right : NodeId}
    (missing : arena.size ≤ left ∨ arena.size ≤ right) :
    ∃ id, ∀ fuel, 0 < fuel → arena.equalNodes fuel left right = .error (.unknownNode id) := by
  by_cases there : arena.size ≤ left
  · refine ⟨left,fun fuel enough => ?_⟩
    obtain ⟨fuel,rfl⟩ := Nat.exists_eq_add_one.mpr enough
    rw [equalNodes,node_missing there]
    rfl
  · have found := node_eq_ok_iff.mpr (Array.getElem?_eq_getElem (Nat.not_le.mp there))
    refine ⟨right,fun fuel enough => ?_⟩
    obtain ⟨fuel,rfl⟩ := Nat.exists_eq_add_one.mpr enough
    rw [equalNodes,found,node_missing (missing.resolve_left there)]
    rfl

theorem equal_outcome (consistent : model.Consistent) (valid : AllValid model held arena.nodes)
    (left right : NodeId) :
    ∃ outcome, (∀ fuel, left < fuel → arena.equalNodes fuel left right = outcome) ∧
      arena.structurallyEqual left right = outcome ∧
      ∀ other, outcome ≠ .error (.endlessOwnership other) := by
  by_cases inArena : left < arena.size ∧ right < arena.size
  · obtain ⟨answer,_,given⟩ := equalNodes_decides consistent valid left right inArena.1 inArena.2
    exact ⟨.ok answer,given,given _ (Nat.le_succ_of_le inArena.1),by simp⟩
  · rw [Decidable.not_and_iff_or_not,Nat.not_lt,Nat.not_lt] at inArena
    obtain ⟨id,fails⟩ := equalNodes_missing inArena
    exact ⟨.error (.unknownNode id),fun fuel enough => fails fuel (Nat.zero_lt_of_lt enough),
      fails _ (Nat.succ_pos _),by simp⟩

/-- In every arena that a run over a resolved model reaches, owned children are older than their
owners, so no chain of owners is endless, and clones and comparisons end by themselves. -/
theorem run_ownership_wellFounded {schema : Schema} {externals : NameSet} {model : Model}
    {arena : Arena} (resolved : schema.resolveWith externals = .ok model)
    (reached : Reached model (fun _ => True) arena) :
    (∀ owner child, arena.Owns owner child → child < owner) ∧
    (WellFounded fun child owner => arena.Owns owner child) ∧
    (∀ copier id, ∃ outcome,
      (∀ fuel, id < fuel → (cloneNode copier fuel id).run.run ⟨arena.nodes,[]⟩ = outcome) ∧
      (arena.clone copier id).result = outcome.1 ∧
      ∀ other, outcome.1 ≠ .error (.endlessOwnership other)) ∧
    ∀ left right, ∃ outcome,
      (∀ fuel, left < fuel → arena.equalNodes fuel left right = outcome) ∧
      arena.structurallyEqual left right = outcome ∧
      ∀ other, outcome ≠ .error (.endlessOwnership other) := by
  have consistent := Schema.consistent_of_resolved resolved
  have valid := reached.valid_any consistent
  have older {owner child : NodeId} (owns : arena.Owns owner child) : child < owner :=
    owns.lt consistent valid
  exact ⟨fun _ _ => older,Subrelation.wf older Nat.lt_wfRel.wf,clone_outcome consistent valid,
    equal_outcome consistent valid⟩

/-- The group of the sample is its own parent and yet owns nothing but older nodes. -/
theorem run_ownership_wellFounded_sample :
    Reached sampleModel (fun _ => True) sampleArena ∧
    sampleArena.get 1 "parent" = .ok (some (.node 1)) ∧ sampleArena.Owns 1 0 ∧
    WellFounded fun child owner => sampleArena.Owns owner child := by
  have reached : Reached sampleModel (fun _ => True) sampleArena :=
    sampleArena_reached fun _ _ => trivial
  refine ⟨reached,by decide,?_,(run_ownership_wellFounded sample_resolved reached).2.1⟩
  exact ⟨_,rfl,⟨"members",.cloneList⟩,by decide,.inr rfl,.list [0,0],by decide,by decide⟩

end NodeModel.Arena
