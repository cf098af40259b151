import NodeModel.Proofs.Resolution.Acceptance

/-! What a resolved model guarantees about each class: its lists are aligned with its fields, and
copy modes and defaults suit the kinds. -/
namespace NodeModel.Model

def Field.step (field : Field) : CloneStep := .of field.kind field.policy.copyMode

namespace Class

structure Consistent (cls : Class) : Prop where
  names : (cls.fields.map (·.name)).Nodup
  params : cls.params = (cls.fields.filter (·.policy.bound)).map fun field =>
    ⟨field.name,field.policy.optional⟩
  traversal : cls.traversal = (cls.fields.filter fun field =>
    field.policy.visitable && field.kind.isReference).map fun field =>
    ⟨field.name,field.kind.isList⟩
  cloneRules : cls.cloneRules = cls.fields.map fun field => ⟨field.name,field.step⟩
  modes : ∀ field ∈ cls.fields, field.policy.copyMode.Admissible field.kind field.policy.bound
  defaults : ∀ field ∈ cls.fields, field.default =
    if field.policy.bound then none
    else if field.policy.optional then some .absent else some (.sentinel field.kind)

theorem Consistent.param_names {cls : Class} (lists : cls.Consistent) :
    cls.params.map (·.field) = (cls.fields.filter (·.policy.bound)).map (·.name) := by
  rw [lists.params,List.map_map]
  rfl

theorem Consistent.params_nodup {cls : Class} (lists : cls.Consistent) :
    (cls.params.map (·.field)).Nodup :=
  lists.param_names ▸ lists.names.sublist (List.filter_sublist.map _)

/-- A deferred field is no parameter, not even by its name. -/
theorem Consistent.not_mem_params {cls : Class} (lists : cls.Consistent) {field : Field}
    (member : field ∈ cls.fields) (deferred : field.policy.bound = false) :
    field.name ∉ cls.params.map (·.field) := by
  rw [lists.param_names]
  intro listed
  obtain ⟨other,filtered,same⟩ := List.mem_map.mp listed
  obtain ⟨there,bound⟩ := List.mem_filter.mp filtered
  cases List.inj_on_of_nodup_map lists.names there member same
  simp [deferred] at bound

end Class

structure Consistent (model : Model) : Prop where
  names : (model.classes.map (·.name)).Nodup
  classes : ∀ cls ∈ model.classes, cls.Consistent

theorem Consistent.eq_of_name {model : Model} {first second : Class}
    (consistent : model.Consistent) (member : first ∈ model.classes)
    (member' : second ∈ model.classes) (same : first.name = second.name) : first = second :=
  List.inj_on_of_nodup_map consistent.names member member' same

theorem Consistent.class?_eq_some {model : Model} {cls : Class} (consistent : model.Consistent)
    (member : cls ∈ model.classes) : model.class? cls.name = some cls :=
  find?_of_mem Class.name member fun _ inside => consistent.eq_of_name inside member

end NodeModel.Model

namespace NodeModel.Schema

variable {schema : Schema} {externals : NameSet}

theorem mem_resolvedModel {cls : Model.Class} (names : schema.DistinctNames) :
    cls ∈ (schema.resolvedModel externals).classes ↔
      ∃ node chain, schema.HasChain node chain ∧
        cls = schema.hierarchy.resolveClass (schema.hierarchy.layout node) := by
  simp only [resolvedModel,Hierarchy.layouts,List.mem_map,exists_exists_and_eq_and]
  constructor
  · rintro ⟨node,member,rfl⟩
    obtain ⟨chain,line⟩ := (mem_preorder names).mp member
    exact ⟨node,chain,line,rfl⟩
  · rintro ⟨node,chain,line,rfl⟩
    exact ⟨node,(mem_preorder names).mpr ⟨chain,line⟩,rfl⟩

/-- The fields of a resolved class are those declared along its chain. -/
theorem Acceptable.fields_eq (ok : schema.Acceptable externals) {node : NodeDecl}
    {chain : List NodeDecl} (line : schema.HasChain node chain) :
    (schema.hierarchy.resolveClass (schema.hierarchy.layout node)).fields =
      (declaredFields chain).map (·.resolved) := by
  have distinct := ok.fields node chain line
  rw [← declaredFields_names] at distinct
  rw [Hierarchy.resolveClass,Layout.resolved,Hierarchy.layout_fields schema.hierarchy ok.names line,
    flatten_eq_declaredFields _ distinct]

theorem Acceptable.consistent (ok : schema.Acceptable externals) :
    (schema.resolvedModel externals).Consistent := by
  constructor
  · have distinct : (schema.preorder.map (·.name)).Nodup := by
      refine List.Nodup.map_on ?_ (preorder_nodup ok.names)
      intro a inA b inB same
      obtain ⟨_,lineA⟩ := (mem_preorder ok.names).mp inA
      obtain ⟨_,lineB⟩ := (mem_preorder ok.names).mp inB
      exact eq_of_name ok.names lineA.member lineB.member same
    simpa [resolvedModel,Hierarchy.layouts,Function.comp_def,Hierarchy.resolveClass,
      Layout.resolved,Layout.name,Hierarchy.layout,hierarchy] using distinct
  · intro cls member
    obtain ⟨node,chain,line,rfl⟩ := (mem_resolvedModel ok.names).mp member
    refine ⟨?_,rfl,rfl,rfl,?_,?_⟩
    · exact Hierarchy.resolvedFields_nodup schema.hierarchy node
    · rw [ok.fields_eq line,List.forall_mem_map]
      intro field inside
      obtain ⟨other,above,declared,_⟩ := mem_declaredFields.mp inside
      exact (FlatField.copyMode_admissible_iff field).mpr
        (ok.modes other (line.subset above) field.decl declared)
    · rw [ok.fields_eq line,List.forall_mem_map]
      intro field _
      rfl

theorem consistent_of_resolved {model : Model}
    (resolved : schema.resolveWith externals = .ok model) : model.Consistent := by
  obtain ⟨ok,rfl⟩ := resolveWith_eq_ok.mp resolved
  exact ok.consistent

end NodeModel.Schema
