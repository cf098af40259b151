import NodeModel.Proofs.Resolution.Consistency

/-! Where the references of a resolved model lead: every target is a class of the model, and below
a leaf there is nothing but the leaf itself. -/
namespace NodeModel

structure Model.Closed (model : Model) : Prop where
  targets : ∀ cls ∈ model.classes, ∀ field ∈ cls.fields, ∀ target,
    field.kind.target? = some target → ∃ found ∈ model.classes, found.name = target
  self : ∀ cls ∈ model.classes, cls.isSubclassOf cls.name = true
  leaves : ∀ cls ∈ model.classes, ∀ leaf ∈ model.classes, leaf.isLeaf = true →
    cls.isSubclassOf leaf.name = true → cls = leaf

namespace Schema

variable {schema : Schema} {externals : NameSet}

theorem isSubclassOf_iff (names : schema.DistinctNames) {node : NodeDecl} {chain : List NodeDecl}
    (line : schema.HasChain node chain) {name : String} :
    (schema.hierarchy.resolveClass (schema.hierarchy.layout node)).isSubclassOf name = true ↔
      ∃ other ∈ chain, other.name = name := by
  have same : (schema.hierarchy.layout node).chain = chain :=
    Hierarchy.layout_chain schema.hierarchy names line
  simp [Model.Class.isSubclassOf,Hierarchy.resolveClass,Layout.resolved,same]

theorem extended_of_ancestor {node above : NodeDecl} (ancestor : schema.Ancestor node above) :
    ∃ below, schema.Extends below above := by
  cases ancestor with
  | single link => exact ⟨_,link⟩
  | tail _ link => exact ⟨_,link⟩

theorem not_isLeaf_of_extends {node parent : NodeDecl} (link : schema.Extends node parent) :
    (schema.hierarchy.resolveClass (schema.hierarchy.layout parent)).isLeaf = false := by
  obtain ⟨declared,there,named⟩ := link
  have known : schema.declares parent.name = true := declares_iff.mpr ⟨parent,there,rfl⟩
  have extending : node ∈ schema.extending parent.name :=
    List.mem_filter.mpr ⟨declared,by simp [named]⟩
  simpa [Model.Class.isLeaf,Hierarchy.resolveClass,Layout.resolved,Hierarchy.layout,
    Hierarchy.subclasses,Hierarchy.contains,hierarchy,known] using List.ne_nil_of_mem extending

theorem Acceptable.closed (ok : schema.Acceptable externals) :
    (schema.resolvedModel externals).Closed := by
  constructor
  case targets =>
    intro cls member field inside target reference
    obtain ⟨node,chain,line,rfl⟩ := (mem_resolvedModel ok.names).mp member
    rw [ok.fields_eq line] at inside
    obtain ⟨flat,listed,rfl⟩ := List.mem_map.mp inside
    obtain ⟨other,above,declared,_⟩ := mem_declaredFields.mp listed
    obtain ⟨found,there,named⟩ :=
      (ok.types other (line.subset above) flat.decl declared).1 target reference
    obtain ⟨chain',line'⟩ := (acyclic_iff ok.names).mp ok.acyclic found there
    exact ⟨_,(mem_resolvedModel ok.names).mpr ⟨found,chain',line',rfl⟩,named⟩
  case self =>
    intro cls member
    obtain ⟨node,chain,line,rfl⟩ := (mem_resolvedModel ok.names).mp member
    refine (isSubclassOf_iff ok.names line).mpr ⟨node,?_,rfl⟩
    rw [line.ends]
    simp
  case leaves =>
    intro cls member leaf member' isLeaf below
    obtain ⟨node,chain,line,rfl⟩ := (mem_resolvedModel ok.names).mp member
    obtain ⟨other,chain',line',rfl⟩ := (mem_resolvedModel ok.names).mp member'
    obtain ⟨above,inside,named⟩ := (isSubclassOf_iff ok.names line).mp below
    obtain rfl : above = other := eq_of_name ok.names (line.subset inside) line'.member named
    rw [line.ends,List.mem_append,List.mem_singleton] at inside
    rcases inside with proper | rfl
    · obtain ⟨child,link⟩ := extended_of_ancestor (line.ancestor_of_mem proper)
      exact absurd isLeaf (by simp [not_isLeaf_of_extends link])
    · rfl

theorem closed_of_resolved {model : Model} (resolved : schema.resolveWith externals = .ok model) :
    model.Closed := by
  obtain ⟨ok,rfl⟩ := resolveWith_eq_ok.mp resolved
  exact ok.closed

end Schema

end NodeModel
