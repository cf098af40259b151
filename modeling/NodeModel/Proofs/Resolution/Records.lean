import NodeModel.Proofs.Resolution.Consistency

/-! The records of a resolved model against what the schema declares. Tables, look-ups and the order
in which the resolver goes do not show in them. -/
namespace NodeModel

/-- How a declared field stands in the record of its class and of every class below. -/
structure FieldDecl.RecordedAs (decl : FieldDecl) (owner : String) (field : Model.Field) : Prop where
  name : field.name = decl.name
  kind : field.kind = decl.kind
  optional : field.policy.optional = decl.policy.optional
  bound : field.policy.bound = decl.policy.bound
  visitable : field.policy.visitable = decl.policy.visitable
  named : ∀ mode, decl.policy.copyMode = some mode → field.policy.copyMode = mode
  usual : decl.policy.copyMode = none →
    field.policy.copyMode = .usual decl.kind decl.policy.bound
  declaredIn : field.declaredIn = owner
  given : decl.policy.bound = true → field.default = none
  absent : decl.policy.bound = false → decl.policy.optional = true → field.default = some .absent
  sentinel : decl.policy.bound = false → decl.policy.optional = false →
    field.default = some (.sentinel decl.kind)
  doc : field.doc = decl.doc

namespace Model

/-- A record holds what the classes of a chain declare, and nothing else. The constructor, traversal
and clone lists follow its fields. -/
structure Class.Records (cls : Class) (schema : Schema) (node : NodeDecl) (line : List NodeDecl) :
    Prop extends cls.Consistent where
  name : cls.name = node.name
  superclass : ∀ name, cls.superclass = some name ↔
    node.superclass = some name ∧ ∃ parent ∈ schema.nodes, parent.name = name
  chain : cls.chain = line.map (·.name)
  subclasses : cls.subclasses = (schema.nodes.filter (·.superclass == some node.name)).map (·.name)
  fields : List.Forall₂ (fun declared field => declared.decl.RecordedAs declared.declaredIn field)
    (declaredFields line) cls.fields
  doc : cls.doc = node.doc

/-- The lists of a class start with those of `above`. -/
structure Class.Continues (cls above : Class) : Prop where
  fields : above.fields <+: cls.fields
  params : above.params <+: cls.params
  traversal : above.traversal <+: cls.traversal
  cloneRules : above.cloneRules <+: cls.cloneRules

/-- A model is what a schema declares: one record for each class, chains that follow the
superclasses, and the external types in use. -/
structure Describes (model : Model) (schema : Schema) : Prop where
  root : model.root = schema.root
  everyClass : schema.preorder.Perm schema.nodes
  classes : List.Forall₂ (fun node cls => ∃ chain, schema.HasChain node chain ∧
    cls.Records schema node chain) schema.preorder model.classes
  top : ∀ cls ∈ model.classes, cls.superclass = none → cls.chain = [cls.name]
  below : ∀ cls ∈ model.classes, ∀ name, cls.superclass = some name →
    ∃ parent ∈ model.classes, parent.name = name ∧ cls.chain = parent.chain ++ [cls.name]
  inherited : ∀ cls ∈ model.classes, ∀ above ∈ model.classes,
    cls.isSubclassOf above.name = true → cls.Continues above
  sorted : model.externals.Pairwise (· < ·)
  externals : ∀ name, name ∈ model.externals ↔
    ∃ node ∈ schema.nodes, ∃ field ∈ node.fields, field.kind = .primitive (.external name)

end Model

theorem FlatField.recordedAs (field : FlatField) :
    field.decl.RecordedAs field.declaredIn field.resolved where
  name := rfl
  kind := rfl
  optional := rfl
  bound := rfl
  visitable := rfl
  named mode explicit := by simp [resolved,copyMode,explicit]
  usual silent := by simp [resolved,copyMode,silent]
  declaredIn := rfl
  given bound := by simp [resolved,default?,bound]
  absent deferred optional := by simp [resolved,default?,deferred,optional]
  sentinel deferred required := by simp [resolved,default?,deferred,required]
  doc := rfl

theorem FieldKind.external?_eq_some {kind : FieldKind} {name : String} :
    kind.external? = some name ↔ kind = .primitive (.external name) := by
  cases kind with
  | primitive value => cases value <;> simp [external?]
  | single => simp [external?]
  | list => simp [external?]

namespace Schema

variable {schema : Schema} {externals : NameSet} {node : NodeDecl} {chain : List NodeDecl}

abbrev record (schema : Schema) (node : NodeDecl) : Model.Class :=
  schema.hierarchy.resolveClass (schema.hierarchy.layout node)

theorem record_superclass (node : NodeDecl) (name : String) :
    (schema.record node).superclass = some name ↔
      node.superclass = some name ∧ ∃ parent ∈ schema.nodes, parent.name = name := by
  have filtered : (schema.record node).superclass = node.superclass.filter schema.declares := rfl
  rw [filtered,Option.filter_eq_some_iff,declares_iff]

theorem record_subclasses (member : node ∈ schema.nodes) :
    (schema.record node).subclasses =
      (schema.nodes.filter (·.superclass == some node.name)).map (·.name) :=
  if_pos (declares_iff.mpr ⟨node,member,rfl⟩)

theorem record_chain (names : schema.DistinctNames) (line : schema.HasChain node chain) :
    (schema.record node).chain = chain.map (·.name) :=
  congrArg (List.map NodeDecl.name) (Hierarchy.layout_chain schema.hierarchy names line)

namespace Acceptable

theorem records (ok : schema.Acceptable externals) (line : schema.HasChain node chain) :
    (schema.record node).Records schema node chain where
  toConsistent := ok.consistent.classes _ ((mem_resolvedModel ok.names).mpr ⟨node,chain,line,rfl⟩)
  name := rfl
  superclass := record_superclass node
  chain := record_chain ok.names line
  subclasses := record_subclasses line.member
  fields := by
    rw [ok.fields_eq line,List.forall₂_map_right_iff]
    exact List.forall₂_same.mpr fun field _ => FlatField.recordedAs field
  doc := rfl

/-- What a chain adds below a class goes to the end of every list. -/
theorem continues (ok : schema.Acceptable externals) {other : NodeDecl} {part : List NodeDecl}
    (line : schema.HasChain node chain) (line' : schema.HasChain other part)
    (initial : part <+: chain) : (schema.record node).Continues (schema.record other) := by
  have consistent := (ok.records line).toConsistent
  have consistent' := (ok.records line').toConsistent
  have fields : (schema.record other).fields <+: (schema.record node).fields := by
    obtain ⟨rest,rfl⟩ := initial
    rw [ok.fields_eq line,ok.fields_eq line']
    simp [declaredFields]
  refine ⟨fields,?_,?_,?_⟩
  · rw [consistent.params,consistent'.params]
    exact (fields.filter _).map _
  · rw [consistent.traversal,consistent'.traversal]
    exact (fields.filter _).map _
  · rw [consistent.cloneRules,consistent'.cloneRules]
    exact fields.map _

end Acceptable

/-- The external types in use are those of all declared fields, as no field is dropped and every
type is known. -/
theorem Acceptable.mem_externals (ok : schema.Acceptable externals) (name : String) :
    name ∈ (schema.resolvedModel externals).externals ↔
      ∃ node ∈ schema.nodes, ∃ field ∈ node.fields, field.kind = .primitive (.external name) := by
  simp only [resolvedModel,usedExternals,NameSet.mem_ofList,List.mem_filterMap,
    ← mem_ownFields_iff ok.names]
  constructor
  · rintro ⟨field,member,confirmed⟩
    obtain ⟨node,reached,own⟩ := List.mem_flatMap.mp member
    obtain ⟨chain,line⟩ := (mem_preorder ok.names).mp reached
    rw [Hierarchy.ownFields_eq_kept schema.hierarchy ok.names line] at own
    obtain ⟨decl,inside,rfl⟩ := List.mem_map.mp own
    have external := (Option.filter_eq_some_iff.mp confirmed).1
    exact ⟨node,line.member,decl,kept_subset _ _ inside,FieldKind.external?_eq_some.mp external⟩
  · rintro ⟨node,member,decl,inside,external⟩
    obtain ⟨chain,line⟩ := (acyclic_iff ok.names).mp ok.acyclic node member
    have distinct := ok.fields node chain line
    rw [← declaredFields_names] at distinct
    have known := (ok.types node member decl inside).2 name (FieldKind.external?_eq_some.mpr external)
    refine ⟨⟨decl,node.name⟩,List.mem_flatMap.mpr
      ⟨node,(mem_preorder ok.names).mpr ⟨chain,line⟩,?_⟩,?_⟩
    · rw [Hierarchy.ownFields_eq schema.hierarchy ok.names line distinct]
      exact List.mem_map_of_mem inside
    · simpa [FlatField.confirmed?,external,FieldKind.external?,NameSet.contains] using known

/-- An accepted schema is resolved into what it declares. -/
theorem Acceptable.describes (ok : schema.Acceptable externals) :
    (schema.resolvedModel externals).Describes schema where
  root := rfl
  everyClass := preorder_perm ok.names ok.acyclic
  classes := by
    simp only [resolvedModel,Hierarchy.layouts,List.map_map,List.forall₂_map_right_iff]
    refine List.forall₂_same.mpr fun node reached => ?_
    obtain ⟨chain,line⟩ := (mem_preorder ok.names).mp reached
    exact ⟨chain,line,ok.records line⟩
  top := by
    intro cls member alone
    obtain ⟨node,chain,line,rfl⟩ := (mem_resolvedModel ok.names).mp member
    cases line with
    | top declared none => exact record_chain ok.names (.top declared none)
    | @extend _ parent _ link _ =>
      have named := (record_superclass node parent.name).mpr ⟨link.2.2,parent,link.2.1,rfl⟩
      simp [named] at alone
  below := by
    intro cls member name named
    obtain ⟨node,chain,line,rfl⟩ := (mem_resolvedModel ok.names).mp member
    obtain ⟨extended,parent,declared,rfl⟩ := (record_superclass node name).mp named
    cases line with
    | top member none => exact absurd ⟨member,declared,extended⟩ (none parent)
    | @extend _ upper chain link above =>
      obtain rfl := link.unique ok.names ⟨link.1,declared,extended⟩
      refine ⟨schema.record upper,(mem_resolvedModel ok.names).mpr ⟨upper,chain,above,rfl⟩,rfl,?_⟩
      rw [record_chain ok.names (.extend link above),record_chain ok.names above,List.map_append]
      rfl
  inherited := by
    intro cls member above member' below
    obtain ⟨node,chain,line,rfl⟩ := (mem_resolvedModel ok.names).mp member
    obtain ⟨other,_,line',rfl⟩ := (mem_resolvedModel ok.names).mp member'
    obtain ⟨upper,inside,named⟩ : ∃ upper ∈ chain, upper.name = other.name := by
      have listed : (schema.record node).chain.contains other.name = true := below
      simpa [record_chain ok.names line] using listed
    obtain ⟨part,line'',initial⟩ := line.prefix_of_mem inside
    obtain rfl := eq_of_name ok.names line''.member line'.member named
    exact ok.continues line line'' initial
  sorted := NameSet.ofList_sorted _
  externals := ok.mem_externals

/-- Whatever comes out of resolution is the model that the schema declares. -/
theorem resolveWith_describes {model : Model} (resolved : schema.resolveWith externals = .ok model) :
    model.Describes schema := by
  obtain ⟨ok,rfl⟩ := resolveWith_eq_ok.mp resolved
  exact ok.describes

/-- A class declared before its superclass, which names the external root. Fields of all kinds, bound
and deferred. -/
def layered : Schema where
  root := some "Node"
  externals := ["Type","Span"]
  nodes := [
    { name := "Call"
      superclass := some "Expr"
      fields := [
        { name := "callee", kind := .single "Expr" },
        { name := "arguments", kind := .list "Expr" },
        { name := "target"
          kind := .single "Call"
          policy := { bound := false, optional := true } },
        { name := "users", kind := .list "Call", policy := { bound := false } },
        { name := "parent"
          kind := .single "Expr"
          policy := { bound := false, copyMode := some .share } }] },
    { name := "Expr"
      superclass := some "Node"
      fields := [
        { name := "type", kind := .primitive (.external "Type"), policy := { bound := false } },
        { name := "span"
          kind := .primitive (.external "Span")
          policy := { copyMode := some .external } },
        { name := "name", kind := .primitive .text },
        { name := "label", kind := .primitive .text, policy := { bound := false } },
        { name := "constant", kind := .primitive .flag, policy := { bound := false } },
        { name := "rank", kind := .primitive .integer, policy := { bound := false } }] }]

theorem resolveWith_describes_layered :
    layered.resolveWith ⟨["Span","Type"]⟩ = .ok (layered.resolvedModel ⟨["Span","Type"]⟩) ∧
      (layered.resolvedModel ⟨["Span","Type"]⟩).Describes layered ∧
      ∃ cls ∈ (layered.resolvedModel ⟨["Span","Type"]⟩).classes, cls.chain = ["Expr","Call"] ∧
        (cls.fields.map fun field => (field.name,field.policy.copyMode,field.default)) =
          [("type",.share,some .unset),("span",.external,none),("name",.deep,none),
            ("label",.share,some .emptyText),("constant",.share,some .isFalse),
            ("rank",.share,some .zero),("callee",.deep,none),("arguments",.deep,none),
            ("target",.reset,some .absent),("users",.reset,some .emptyList),
            ("parent",.share,some .unset)] ∧
        cls.cloneRules =
          [⟨"type",.shareReference⟩,⟨"span",.externalCopy "Span"⟩,⟨"name",.copyValue⟩,
            ⟨"label",.copyValue⟩,⟨"constant",.copyValue⟩,⟨"rank",.copyValue⟩,
            ⟨"callee",.cloneChild⟩,⟨"arguments",.cloneList⟩,⟨"target",.reset⟩,⟨"users",.reset⟩,
            ⟨"parent",.shareReference⟩] := by
  have resolved : layered.resolveWith ⟨["Span","Type"]⟩ =
      .ok (layered.resolvedModel ⟨["Span","Type"]⟩) := rfl
  exact ⟨resolved,resolveWith_describes resolved,by decide +kernel⟩

end Schema

end NodeModel
