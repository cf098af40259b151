import NodeModel.Proofs.Resolution.Records
import NodeModel.Proofs.Resolution.Targets

/-! The leaves below a class of a resolved model: they come in the pre-order of the schema, and there
is always one. -/
namespace NodeModel.Schema

variable {schema : Schema} {externals : NameSet} {node : NodeDecl} {chain : List NodeDecl}

def Leaf (schema : Schema) (node : NodeDecl) : Prop := ∀ other, ¬ schema.Extends other node

/-- The leaves strictly below a class, in the order in which the forest is walked. -/
structure LeavesBelow (schema : Schema) (above : NodeDecl) (leaves : List NodeDecl) : Prop where
  ordered : leaves.Sublist schema.forest
  mem_iff : ∀ node, node ∈ leaves ↔ schema.Ancestor node above ∧ schema.Leaf node

theorem record_isLeaf (member : node ∈ schema.nodes) :
    (schema.record node).isLeaf = true ↔ schema.Leaf node := by
  rw [Model.Class.isLeaf,record_subclasses member]
  simp only [List.isEmpty_iff,List.map_eq_nil_iff,List.filter_eq_nil_iff,beq_iff_eq,Leaf,Extends,
    member,true_and,not_and]

/-- Going down from a class ends at a leaf, as chains cannot grow for ever. -/
theorem exists_leaf (names : schema.DistinctNames) (line : schema.HasChain node chain)
    (extended : ¬ schema.Leaf node) : ∃ leaf, schema.Ancestor leaf node ∧ schema.Leaf leaf := by
  induction room : schema.nodes.length - chain.length using Nat.strong_induction_on
    generalizing node chain with
  | _ room ih =>
    obtain ⟨child,link⟩ := not_forall_not.mp extended
    have lower : schema.HasChain child (chain ++ [child]) := .extend link line
    by_cases leaf : schema.Leaf child
    · exact ⟨child,.single link,leaf⟩
    · -- The child has a longer chain, which leaves less room below it.
      have bound := lower.length_le names
      simp only [List.length_append,List.length_singleton] at bound
      obtain ⟨last,path,ends⟩ := ih (schema.nodes.length - (chain ++ [child]).length)
        (by simp only [List.length_append,List.length_singleton]; omega) lower leaf rfl
      exact ⟨last,path.tail link,ends⟩

theorem member_of_ancestor {above : NodeDecl} (path : schema.Ancestor node above) :
    node ∈ schema.nodes := by
  induction path using Relation.TransGen.head_induction_on with
  | single link => exact link.1
  | head link _ _ => exact link.1

namespace Acceptable

/-- A leaf has a class on its chain that is no leaf exactly if it is below the class. -/
theorem leaf_below_iff (ok : schema.Acceptable externals) {above : NodeDecl}
    (declared : above ∈ schema.nodes) (extended : ¬ schema.Leaf above) :
    node ∈ schema.preorder ∧ (schema.record node).isLeaf = true ∧
        (schema.record node).isSubclassOf above.name = true ↔
      schema.Ancestor node above ∧ schema.Leaf node := by
  constructor
  · rintro ⟨reached,leaf,below⟩
    obtain ⟨chain,line⟩ := (mem_preorder ok.names).mp reached
    have leaf := (record_isLeaf line.member).mp leaf
    obtain ⟨other,inside,named⟩ := (isSubclassOf_iff ok.names line).mp below
    obtain rfl : other = above := eq_of_name ok.names (line.subset inside) declared named
    rw [line.ends,List.mem_append,List.mem_singleton] at inside
    rcases inside with proper | rfl
    · exact ⟨line.ancestor_of_mem proper,leaf⟩
    · exact absurd leaf extended
  · rintro ⟨path,leaf⟩
    have member := member_of_ancestor path
    obtain ⟨chain,line⟩ := (acyclic_iff ok.names).mp ok.acyclic node member
    refine ⟨(mem_preorder ok.names).mpr ⟨chain,line⟩,(record_isLeaf member).mpr leaf,?_⟩
    have inside := (line.mem_dropLast_iff ok.names).mpr path
    exact (isSubclassOf_iff ok.names line).mpr ⟨above,List.dropLast_subset _ inside,rfl⟩

theorem leavesBelow (ok : schema.Acceptable externals) (line : schema.HasChain node chain)
    (extended : ¬ schema.Leaf node) :
    ∃ leaves, schema.LeavesBelow node leaves ∧ leaves ≠ [] ∧
      ((schema.resolvedModel externals).leavesUnder node.name).map (·.name) =
        leaves.map (·.name) := by
  let isBelow (other : NodeDecl) : Bool :=
    (schema.record other).isLeaf && (schema.record other).isSubclassOf node.name
  have mem_iff (other : NodeDecl) : other ∈ schema.preorder.filter isBelow ↔
      schema.Ancestor other node ∧ schema.Leaf other := by
    rw [List.mem_filter,Bool.and_eq_true]
    exact ok.leaf_below_iff line.member extended
  refine ⟨schema.preorder.filter isBelow,⟨?_,mem_iff⟩,?_,?_⟩
  · rw [← preorder_eq ok.names]
    exact List.filter_sublist
  · obtain ⟨leaf,below⟩ := exists_leaf ok.names line extended
    exact List.ne_nil_of_mem ((mem_iff leaf).mpr below)
  · have classes : (schema.resolvedModel externals).classes = schema.preorder.map schema.record :=
      List.map_map
    rw [Model.leavesUnder,Model.leaves,classes,List.filter_map,List.filter_map,List.filter_filter,
      List.map_map]
    refine congrArg (List.map NodeDecl.name) (List.filter_congr fun other _ => ?_)
    exact Bool.and_comm ..

end Acceptable

end NodeModel.Schema
