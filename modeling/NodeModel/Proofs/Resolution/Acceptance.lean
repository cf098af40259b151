import Mathlib.Tactic.MkIffOfInductiveProp
import NodeModel.Proofs.Resolution.Pass

/-! Which schemas are accepted. The conditions speak of what is declared; that a run of the resolver
checks them in stages, on kept fields only and each field once, does not show in them. -/
namespace NodeModel

/-- A copy mode that can be honoured: external copies are for external values alone, and neither
these nor deferred references are copied deeply. -/
def CopyMode.Admissible (kind : FieldKind) (bound : Bool) (mode : CopyMode) : Prop :=
  (mode = .external → kind.external?.isSome) ∧
  (mode = .deep → kind.external? = none ∧ (kind.isReference → bound = true))

def FieldKind.Known (schema : Schema) (externals : NameSet) (kind : FieldKind) : Prop :=
  (∀ target, kind.target? = some target → ∃ node ∈ schema.nodes, node.name = target) ∧
  (∀ name, kind.external? = some name → name ∈ externals.names)

namespace Schema

/-- The pair that `node` declares can be bound to fields of its chain. -/
@[mk_iff]
structure Bindable (schema : Schema) (node : NodeDecl) (chain : List NodeDecl)
    (pair : ManglePair) : Prop where
  alone : ∀ above, schema.Ancestor node above → above.indicators.mangle = none
  apart : pair.nameField ≠ pair.flagField
  name : ∃ field ∈ chain.flatMap (·.fields),
    field.name = pair.nameField ∧ field.kind = .primitive .text
  flag : ∃ field ∈ chain.flatMap (·.fields),
    field.name = pair.flagField ∧ field.kind = .primitive .flag

/-- What a schema has to satisfy against the external types that are known. -/
structure Acceptable (schema : Schema) (externals : NameSet) : Prop extends
    Structured schema where
  fields : ∀ node chain, schema.HasChain node chain →
    (chain.flatMap fun other => other.fields.map (·.name)).Nodup
  types : ∀ node ∈ schema.nodes, ∀ field ∈ node.fields, field.kind.Known schema externals
  modes : ∀ node ∈ schema.nodes, ∀ field ∈ node.fields, ∀ mode,
    field.policy.copyMode = some mode → mode.Admissible field.kind field.policy.bound
  pairs : ∀ node chain pair, schema.HasChain node chain → node.indicators.mangle = some pair →
    schema.Bindable node chain pair

end Schema

theorem CopyMode.defect?_eq_none (kind : FieldKind) (bound : Bool) (mode : CopyMode) :
    mode.defect? kind bound = none ↔ mode.Admissible kind bound := by
  cases mode with
  | external => cases owner : kind.external? <;> simp [defect?,Admissible,owner]
  | deep => cases owner : kind.external? <;> cases bound <;> simp [defect?,Admissible,owner]
  | share => simp [defect?,Admissible]
  | reset => simp [defect?,Admissible]

/-- The mode a field gets by itself is never a defect. -/
theorem CopyMode.usual_admissible (kind : FieldKind) (bound : Bool) :
    (CopyMode.usual kind bound).Admissible kind bound := by
  cases kind with
  | primitive value => cases value <;> cases bound <;> simp [usual,Admissible,FieldKind.external?,
      FieldKind.isReference,FieldKind.target?]
  | single => cases bound <;> simp [usual,Admissible,FieldKind.external?]
  | list => cases bound <;> simp [usual,Admissible,FieldKind.external?]

namespace FlatField

theorem unknownType?_eq_none (schema : Schema) (externals : NameSet) (field : FlatField) :
    field.unknownType? schema externals = none ↔ field.decl.kind.Known schema externals := by
  unfold unknownType? FieldKind.Known
  cases field.decl.kind with
  | single target => simp [FieldKind.target?,FieldKind.external?,← Schema.declares_iff]
  | list target => simp [FieldKind.target?,FieldKind.external?,← Schema.declares_iff]
  | primitive value =>
    cases value <;> simp [FieldKind.target?,FieldKind.external?,NameSet.contains]

theorem copyMode_admissible_iff (field : FlatField) :
    field.copyMode.Admissible field.decl.kind field.decl.policy.bound ↔
      ∀ mode, field.decl.policy.copyMode = some mode →
        mode.Admissible field.decl.kind field.decl.policy.bound := by
  cases named : field.decl.policy.copyMode with
  | none => simp [copyMode,named,CopyMode.usual_admissible]
  | some mode => simp [copyMode,named]

theorem defects_nil_iff (schema : Schema) (externals : NameSet) (field : FlatField) :
    field.defects schema externals = [] ↔
      field.decl.kind.Known schema externals ∧
      ∀ mode, field.decl.policy.copyMode = some mode →
        mode.Admissible field.decl.kind field.decl.policy.bound := by
  rw [← unknownType?_eq_none,← copyMode_admissible_iff,← CopyMode.defect?_eq_none]
  simp [defects]

end FlatField

theorem bindField_eq_ok_iff {fields : List Model.Field} {name : String} {expected : Primitive}
    {optional : Bool} (distinct : (fields.map (·.name)).Nodup) :
    bindField fields name expected = .ok optional ↔
      ∃ field ∈ fields, field.name = name ∧ field.kind = .primitive expected ∧
        field.policy.optional = optional := by
  unfold bindField
  cases found : fields.find? (·.name == name) with
  | none =>
    simp only [reduceCtorEq,false_iff]
    rintro ⟨field,member,named,_⟩
    simpa [named] using List.find?_eq_none.mp found field member
  | some field =>
    have member := List.mem_of_find?_eq_some found
    have named : field.name = name := by simpa using List.find?_some found
    have only {other : Model.Field} (inside : other ∈ fields) (same : other.name = name) :
        other = field := List.inj_on_of_nodup_map distinct inside member (same.trans named.symm)
    by_cases kind : field.kind = .primitive expected
    · simp only [kind,if_true,Except.ok.injEq]
      constructor
      · exact fun same => ⟨field,member,named,kind,same⟩
      · rintro ⟨other,inside,same,_,option⟩
        exact only inside same ▸ option
    · simp only [kind,if_false,reduceCtorEq,false_iff]
      rintro ⟨other,inside,same,typed,_⟩
      exact kind (only inside same ▸ typed)

theorem bindField_ok_iff (fields : List Model.Field) (name : String) (expected : Primitive)
    (distinct : (fields.map (·.name)).Nodup) :
    (∃ optional, bindField fields name expected = .ok optional) ↔
      ∃ field ∈ fields, field.name = name ∧ field.kind = .primitive expected := by
  simp only [bindField_eq_ok_iff distinct]
  constructor
  · rintro ⟨_,field,member,named,kind,_⟩
    exact ⟨field,member,named,kind⟩
  · rintro ⟨field,member,named,kind⟩
    exact ⟨_,field,member,named,kind,rfl⟩

def bindingReport (cls name : String) : Except MangleDefect Bool → List Defect
  | .ok _ => []
  | .error reason => [.unboundMangle cls name reason]

theorem ManglePair.bind_report (pair : ManglePair) (cls : String) (fields : List Model.Field) :
    (pair.bind cls fields).2 =
      if pair.nameField = pair.flagField then [.unboundMangle cls pair.nameField .sameField]
      else bindingReport cls pair.nameField (bindField fields pair.nameField .text) ++
        bindingReport cls pair.flagField (bindField fields pair.flagField .flag) := by
  unfold ManglePair.bind
  split
  · rfl
  · cases bindField fields pair.nameField .text <;>
      cases bindField fields pair.flagField .flag <;> rfl

theorem bindingReport_nil_iff (cls name : String) (binding : Except MangleDefect Bool) :
    bindingReport cls name binding = [] ↔ ∃ optional, binding = .ok optional := by
  cases binding <;> simp [bindingReport]

theorem ManglePair.bind_nil_iff (pair : ManglePair) (cls : String) (fields : List Model.Field) :
    (pair.bind cls fields).2 = [] ↔
      pair.nameField ≠ pair.flagField ∧
      (∃ optional, bindField fields pair.nameField .text = .ok optional) ∧
      (∃ optional, bindField fields pair.flagField .flag = .ok optional) := by
  rw [bind_report]
  by_cases same : pair.nameField = pair.flagField
  · simp [same]
  · simp [same,bindingReport_nil_iff]

namespace Hierarchy

variable (hierarchy : Hierarchy) {node : NodeDecl} {chain : List NodeDecl}

theorem resolvedFields_nodup (node : NodeDecl) :
    ((hierarchy.resolvedFields node).map (·.name)).Nodup := by
  have distinct := flatten_nodup (hierarchy.chain node)
  rw [resolvedFields,layout,List.map_map]
  exact distinct

/-- The pair of a class can be bound exactly if no ancestor has one, its fields differ, and both
are there with their kinds. -/
theorem mangleDefects_nil_iff (names : hierarchy.schema.DistinctNames)
    (line : hierarchy.schema.HasChain node chain)
    (distinct : ((declaredFields chain).map (·.decl.name)).Nodup) :
    hierarchy.mangleDefects (hierarchy.layout node) = [] ↔
      ∀ pair, node.indicators.mangle = some pair →
        hierarchy.schema.Bindable node chain pair := by
  have lookup (name : String) (expected : Primitive) :
      (∃ optional, bindField (hierarchy.resolvedFields node) name expected = .ok optional) ↔
        ∃ field ∈ chain.flatMap (·.fields),
          field.name = name ∧ field.kind = .primitive expected := by
    rw [bindField_ok_iff _ _ _ (resolvedFields_nodup hierarchy node),resolvedFields,
      layout_fields hierarchy names line,flatten_eq_declaredFields _ distinct]
    constructor
    · rintro ⟨_,member,named,typed⟩
      obtain ⟨field,declared,rfl⟩ := List.mem_map.mp member
      obtain ⟨other,above,inside,_⟩ := mem_declaredFields.mp declared
      exact ⟨field.decl,List.mem_flatMap.mpr ⟨other,above,inside⟩,named,typed⟩
    · rintro ⟨decl,member,named,typed⟩
      obtain ⟨other,above,inside⟩ := List.mem_flatMap.mp member
      have declared : ⟨decl,other.name⟩ ∈ declaredFields chain :=
        mem_declaredFields.mpr ⟨other,above,inside,rfl⟩
      exact ⟨_,List.mem_map_of_mem declared,named,typed⟩
  have own : (hierarchy.layout node).node.indicators.mangle = node.indicators.mangle := rfl
  have alone : (hierarchy.layout node).chain.dropLast.any (·.indicators.mangle.isSome) = false ↔
      ∀ above, hierarchy.schema.Ancestor node above → above.indicators.mangle = none := by
    simp [layout_chain hierarchy names line,line.mem_dropLast_iff names]
  unfold mangleDefects
  rw [own]
  cases declared : node.indicators.mangle with
  | none => simp
  | some pair =>
    simp only [Option.some.injEq,forall_eq',Schema.bindable_iff,← alone]
    cases (hierarchy.layout node).chain.dropLast.any (·.indicators.mangle.isSome) with
    | true => simp
    | false =>
      simp only [Bool.false_eq_true,if_false,true_and]
      exact (ManglePair.bind_nil_iff pair _ _).trans
        (and_congr_right fun _ => and_congr (lookup _ _) (lookup _ _))

/-- Without redeclarations the own fields of a layout are those that the class declares. -/
theorem ownFields_eq (names : hierarchy.schema.DistinctNames)
    (line : hierarchy.schema.HasChain node chain)
    (distinct : ((declaredFields chain).map (·.decl.name)).Nodup) :
    (hierarchy.layout node).ownFields = node.fields.map (⟨·,node.name⟩) := by
  rw [line.ends,declaredFields_concat,List.map_append,List.map_map] at distinct
  have above := flatten_eq_declaredFields chain.dropLast distinct.of_append_left
  rw [ownFields_eq_kept hierarchy names line,above,kept_eq_self distinct]

/-- The defects of a class, where the names along its chain are distinct. -/
theorem classDefects_nil_iff (names : hierarchy.schema.DistinctNames) (externals : NameSet)
    (line : hierarchy.schema.HasChain node chain)
    (distinct : ((declaredFields chain).map (·.decl.name)).Nodup) :
    hierarchy.classDefects externals (hierarchy.layout node) = [] ↔
      (∀ field ∈ node.fields, field.kind.Known hierarchy.schema externals) ∧
      (∀ field ∈ node.fields, ∀ mode, field.policy.copyMode = some mode →
        mode.Admissible field.kind field.policy.bound) ∧
      hierarchy.mangleDefects (hierarchy.layout node) = [] := by
  rw [classDefects,List.append_eq_nil_iff,List.flatMap_eq_nil_iff,
    ownFields_eq hierarchy names line distinct,List.forall_mem_map]
  simp only [FlatField.defects_nil_iff,forall_and,and_assoc]

end Hierarchy

namespace Schema

variable {schema : Schema} {externals : NameSet}

/-- A model comes out exactly if the hierarchy can be built and no class has a defect. -/
theorem resolveWith_stages {model : Model} :
    schema.resolveWith externals = .ok model ↔
      ∃ hierarchy, Hierarchy.build schema = .ok hierarchy ∧
        (∀ node ∈ hierarchy.order, hierarchy.redeclarations node = []) ∧
        (∀ node ∈ hierarchy.order, hierarchy.classDefects externals (hierarchy.layout node) = []) ∧
        model =
          { root := schema.root
            externals := usedExternals externals hierarchy.layouts
            classes := hierarchy.layouts.map hierarchy.resolveClass } := by
  unfold resolveWith
  cases built : Hierarchy.build schema with
  | error defects => simp [resolution,built]
  | ok hierarchy =>
    obtain ⟨graph,rfl⟩ := Hierarchy.build_eq_ok_iff.mp built
    rw [resolution_eq graph.names built]
    have clean : (schema.hierarchy.flattenDefects ++
        schema.hierarchy.layouts.flatMap (schema.hierarchy.classDefects externals)).isEmpty = true ↔
        (∀ node ∈ schema.hierarchy.order, schema.hierarchy.redeclarations node = []) ∧
        ∀ node ∈ schema.hierarchy.order,
          schema.hierarchy.classDefects externals (schema.hierarchy.layout node) = [] := by
      simp [Hierarchy.flattenDefects,Hierarchy.layouts]
    by_cases empty : (schema.hierarchy.flattenDefects ++
        schema.hierarchy.layouts.flatMap (schema.hierarchy.classDefects externals)).isEmpty = true
    · simp only [empty,if_true]
      constructor
      · intro same
        exact ⟨_,rfl,(clean.mp empty).1,(clean.mp empty).2,(Except.ok.inj same).symm⟩
      · rintro ⟨_,same,_,_,rfl⟩
        cases same
        rfl
    · simp only [empty]
      constructor
      · intro same
        cases same
      · rintro ⟨_,same,fields,classes,_⟩
        cases same
        exact absurd (clean.mpr ⟨fields,classes⟩) empty

theorem fields_clean_iff (graph : schema.Structured) :
    (∀ node ∈ schema.preorder, schema.hierarchy.redeclarations node = []) ↔
      ∀ node chain, schema.HasChain node chain →
        (chain.flatMap fun other => other.fields.map (·.name)).Nodup := by
  simp only [mem_preorder graph.names,← declaredFields_names]
  constructor
  · intro clean node chain line
    refine (schema.hierarchy.redeclarations_nil_iff graph.names line).mp fun other member => ?_
    obtain ⟨part,line',_⟩ := line.prefix_of_mem member
    exact clean other ⟨part,line'⟩
  · rintro distinct node ⟨chain,line⟩
    refine (schema.hierarchy.redeclarations_nil_iff graph.names line).mpr
      (distinct node chain line) node ?_
    rw [line.ends]
    simp

theorem classes_clean_iff (graph : schema.Structured)
    (fields : ∀ node chain, schema.HasChain node chain →
      (chain.flatMap fun other => other.fields.map (·.name)).Nodup) :
    (∀ node ∈ schema.preorder,
      schema.hierarchy.classDefects externals (schema.hierarchy.layout node) = []) ↔
      (∀ node ∈ schema.nodes, ∀ field ∈ node.fields, field.kind.Known schema externals) ∧
      (∀ node ∈ schema.nodes, ∀ field ∈ node.fields, ∀ mode,
        field.policy.copyMode = some mode → mode.Admissible field.kind field.policy.bound) ∧
      (∀ node chain pair, schema.HasChain node chain → node.indicators.mangle = some pair →
        schema.Bindable node chain pair) := by
  have distinct {node : NodeDecl} {chain : List NodeDecl} (line : schema.HasChain node chain) :
      ((declaredFields chain).map (·.decl.name)).Nodup := by
    rw [declaredFields_names]
    exact fields node chain line
  have lines := (acyclic_iff graph.names).mp graph.acyclic
  constructor
  · intro clean
    have here {node : NodeDecl} {chain : List NodeDecl} (line : schema.HasChain node chain) :=
      (schema.hierarchy.classDefects_nil_iff graph.names externals line (distinct line)).mp
        (clean node ((mem_preorder graph.names).mpr ⟨chain,line⟩))
    refine ⟨fun node member => ?_,fun node member => ?_,fun node chain pair line => ?_⟩
    · obtain ⟨chain,line⟩ := lines node member
      exact (here line).1
    · obtain ⟨chain,line⟩ := lines node member
      exact (here line).2.1
    · exact (schema.hierarchy.mangleDefects_nil_iff graph.names line (distinct line)).mp
        (here line).2.2 pair
  · rintro ⟨types,modes,pairs⟩ node member
    obtain ⟨chain,line⟩ := (mem_preorder graph.names).mp member
    refine (schema.hierarchy.classDefects_nil_iff graph.names externals line (distinct line)).mpr
      ⟨types node line.member,modes node line.member,?_⟩
    exact (schema.hierarchy.mangleDefects_nil_iff graph.names line (distinct line)).mpr
      fun pair declared => pairs node chain pair line declared

def resolvedModel (schema : Schema) (externals : NameSet) : Model where
  root := schema.root
  externals := usedExternals externals schema.hierarchy.layouts
  classes := schema.hierarchy.layouts.map schema.hierarchy.resolveClass

theorem resolveWith_eq_ok {model : Model} :
    schema.resolveWith externals = .ok model ↔
      schema.Acceptable externals ∧ model = schema.resolvedModel externals := by
  rw [resolveWith_stages]
  constructor
  · rintro ⟨hierarchy,built,clean,classes,same⟩
    obtain ⟨graph,rfl⟩ := Hierarchy.build_eq_ok_iff.mp built
    have fields := (fields_clean_iff graph).mp clean
    obtain ⟨types,modes,pairs⟩ := (classes_clean_iff graph fields).mp classes
    exact ⟨⟨graph,fields,types,modes,pairs⟩,same⟩
  · rintro ⟨ok,same⟩
    have graph := ok.toStructured
    have classes := (classes_clean_iff graph ok.fields).mpr ⟨ok.types,ok.modes,ok.pairs⟩
    exact ⟨schema.hierarchy,Hierarchy.build_eq_ok_iff.mpr ⟨graph,rfl⟩,
      (fields_clean_iff graph).mpr ok.fields,classes,same⟩

/-- Acceptance is exact: a model comes out if and only if every condition on what is declared
holds. A copy mode that the author leaves out is never a reason to refuse. -/
theorem resolveWith_accepts_iff (schema : Schema) (externals : NameSet) :
    ((∃ model, schema.resolveWith externals = .ok model) ↔ schema.Acceptable externals) ∧
    ∀ kind bound, (CopyMode.usual kind bound).defect? kind bound = none := by
  refine ⟨?_,fun kind bound => ?_⟩
  · simp only [resolveWith_eq_ok,exists_and_left,exists_eq,and_true]
  · exact (CopyMode.defect?_eq_none ..).mpr (CopyMode.usual_admissible kind bound)

end Schema

end NodeModel
