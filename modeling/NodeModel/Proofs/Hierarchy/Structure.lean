import NodeModel.Proofs.Hierarchy.Preorder

/-! The stages of building a hierarchy, each against the condition it decides. -/
namespace NodeModel.Schema

/-- Every superclass is declared or is the external root. -/
def SuperclassesKnown (schema : Schema) : Prop :=
  ∀ node ∈ schema.nodes, ∀ superclass, node.superclass = some superclass →
    (∃ other ∈ schema.nodes, other.name = superclass) ∨ schema.root = some superclass

structure Structured (schema : Schema) : Prop where
  names : schema.DistinctNames
  superclasses : schema.SuperclassesKnown
  roots : schema.root = none → (schema.nodes.filter (·.superclass.isNone)).length ≤ 1
  acyclic : schema.Acyclic

def hierarchy (schema : Schema) : Hierarchy := ⟨schema,schema.preorder⟩

variable {schema : Schema}

theorem duplicates_nil_iff (seen : List String) (nodes : List NodeDecl) :
    duplicates seen nodes = [] ↔
      (∀ node ∈ nodes, node.name ∉ seen) ∧ (nodes.map (·.name)).Nodup := by
  induction nodes generalizing seen with
  | nil => simp [duplicates]
  | cons node rest ih =>
    rw [duplicates]
    by_cases taken : node.name ∈ seen
    · simp [taken]
    · simp only [List.contains_iff_mem,taken,if_false,ih,List.mem_cons,not_or,List.map_cons,
        List.nodup_cons,List.mem_map,not_exists,not_and,forall_eq_or_imp,not_false_iff,true_and]
      constructor
      · rintro ⟨fresh,distinct⟩
        exact ⟨fun other member => (fresh other member).2,
          fun other member => (fresh other member).1,distinct⟩
      · rintro ⟨fresh,apart,distinct⟩
        exact ⟨fun other member => ⟨apart other member,fresh other member⟩,distinct⟩

theorem dangling_nil_iff :
    schema.nodes.filterMap schema.danglingSuperclass? = [] ↔ schema.SuperclassesKnown := by
  rw [List.filterMap_eq_nil_iff]
  refine forall₂_congr fun node _ => ?_
  cases named : node.superclass with
  | none => simp [danglingSuperclass?,named]
  | some superclass =>
    simp only [danglingSuperclass?,named,Option.bind_some,Option.some.injEq,forall_eq',
      ← declares_iff,isRootName]
    by_cases known : schema.declares superclass = true ∨ schema.root = some superclass
    · simp [known]
    · simp [known]

/-- Without an external root, the top-level classes are those without a superclass. -/
theorem topLevel_eq (rootless : schema.root = none) (superclasses : schema.SuperclassesKnown) :
    schema.topLevel = schema.nodes.filter (·.superclass.isNone) := by
  apply List.filter_congr
  intro node member
  cases named : node.superclass with
  | none => simp [parent?,named]
  | some superclass =>
    have declared := (superclasses node member superclass named).resolve_right (by simp [rootless])
    simpa [parent?,named,declares] using declares_iff.mpr declared

theorem extraRoots_nil_iff (superclasses : schema.SuperclassesKnown) :
    schema.extraRoots = [] ↔
      (schema.root = none → (schema.nodes.filter (·.superclass.isNone)).length ≤ 1) := by
  cases rooted : schema.root with
  | some root => simp [extraRoots,rooted]
  | none =>
    rw [← topLevel_eq rooted superclasses]
    simp [extraRoots,rooted]

end NodeModel.Schema

namespace NodeModel.Hierarchy

/-- The stages of a build, in order. -/
theorem build_stages {schema : Schema} {hierarchy : Hierarchy} :
    build schema = .ok hierarchy ↔
      Schema.duplicates [] schema.nodes = [] ∧
      schema.nodes.filterMap schema.danglingSuperclass? = [] ∧ schema.extraRoots = [] ∧
      schema.nodes.length ≤ schema.preorder.length ∧ schema.hierarchy = hierarchy := by
  rw [build]
  simp only [bind,Except.bind,throw,throwThe,MonadExceptOf.throw,pure,Except.pure,
    Bool.not_eq_true',List.isEmpty_eq_false_iff,ite_not]
  split_ifs with distinct resolved single short
  · simp [Nat.not_le.mpr short]
  · simp [distinct,resolved,single,Nat.not_lt.mp short,Schema.hierarchy]
  · simp [single]
  · simp [resolved]
  · simp [distinct]

/-- A hierarchy is built exactly if the class graph is a forest with resolved superclasses, and
then it holds the classes in pre-order. -/
theorem build_eq_ok_iff {schema : Schema} {hierarchy : Hierarchy} :
    build schema = .ok hierarchy ↔ schema.Structured ∧ schema.hierarchy = hierarchy := by
  have distinct : Schema.duplicates [] schema.nodes = [] ↔ schema.DistinctNames := by
    simp [Schema.duplicates_nil_iff,Schema.DistinctNames]
  rw [build_stages,distinct,Schema.dangling_nil_iff]
  constructor
  · rintro ⟨names,superclasses,single,full,same⟩
    exact ⟨⟨names,superclasses,(Schema.extraRoots_nil_iff superclasses).mp single,
      (Schema.preorder_complete_iff names).mp full⟩,same⟩
  · rintro ⟨graph,same⟩
    exact ⟨graph.names,graph.superclasses,
      (Schema.extraRoots_nil_iff graph.superclasses).mpr graph.roots,
      (Schema.preorder_complete_iff graph.names).mpr graph.acyclic,same⟩

end NodeModel.Hierarchy
