import NodeModel.Proofs.Hierarchy.Flattening
import NodeModel.Proofs.Hierarchy.Preorder
import NodeModel.Proofs.Hierarchy.Structure

/-! The pass that lays out one class after the other, against the layout of each class by itself.
What a class inherits is looked up among the classes laid out before; the look-up cannot miss, since
superclasses come first. -/
namespace NodeModel.Schema

variable {schema : Schema} {node : NodeDecl} {done rest : List NodeDecl}

theorem preorder_subset (names : schema.DistinctNames) : schema.preorder ⊆ schema.nodes := by
  rw [preorder_eq names]
  exact forest_subset names

/-- The walk up to some class. -/
theorem done_subset (names : schema.DistinctNames) (split : schema.preorder = done ++ rest) :
    done ⊆ schema.nodes := by
  intro other member
  exact preorder_subset names (split ▸ List.mem_append_left _ member)

theorem not_mem_done (names : schema.DistinctNames) (split : schema.preorder = done ++ node :: rest) :
    node ∉ done := by
  have distinct := preorder_nodup names
  rw [split] at distinct
  intro again
  exact List.disjoint_of_nodup_append distinct again List.mem_cons_self

theorem chain_of_mem (names : schema.DistinctNames) (member : node ∈ schema.preorder) :
    schema.HasChain node (schema.hierarchy.chain node) := by
  obtain ⟨chain,line⟩ := (mem_preorder names).mp member
  rwa [Hierarchy.chain_eq schema.hierarchy names line]

theorem chain_of_next (names : schema.DistinctNames)
    (split : schema.preorder = done ++ node :: rest) :
    schema.HasChain node (schema.hierarchy.chain node) :=
  chain_of_mem names (split ▸ (by simp) : node ∈ schema.preorder)

/-- Every class above the next one has come up. -/
theorem dropLast_subset_done (names : schema.DistinctNames)
    (split : schema.preorder = done ++ node :: rest) :
    (schema.hierarchy.chain node).dropLast ⊆ done := by
  intro above member
  have path := (chain_of_next names split).ancestor_of_mem member
  clear member
  -- Each link leads from a class that has come up, or from the next one, to one that has.
  induction path with
  | single link => exact superclass_before names split link
  | @tail lower _ _ link ih =>
    obtain ⟨before,after,cut⟩ := List.append_of_mem ih
    have earlier : schema.preorder = before ++ lower :: (after ++ node :: rest) := by
      rw [split,cut]
      simp
    rw [cut]
    exact List.mem_append_left _ (superclass_before names earlier link)

theorem find?_name (names : schema.DistinctNames) (declared : done ⊆ schema.nodes)
    (member : node ∈ done) : done.find? (·.name == node.name) = some node :=
  find?_of_mem (·.name) member fun _ inside => eq_of_name names (declared inside) (declared member)

end NodeModel.Schema

namespace NodeModel.Hierarchy

open Schema

variable {schema : Schema} {node : NodeDecl} {done rest : List NodeDecl}

def laidOut (hierarchy : Hierarchy) (done : List NodeDecl) : Flattening where
  layouts := done.map hierarchy.layout
  defects := done.flatMap hierarchy.redeclarations

theorem fieldsOf_laidOut (names : schema.DistinctNames) (declared : done ⊆ schema.nodes)
    (member : node ∈ done) :
    (schema.hierarchy.laidOut done).fieldsOf node.name =
      flatten (schema.hierarchy.chain node) := by
  have found := find?_name names declared member
  simp only [Flattening.fieldsOf,laidOut,List.find?_map,Function.comp_def]
  change (Option.map _ (Option.map _ (done.find? (·.name == node.name)))).getD [] = _
  rw [found]
  rfl

/-- The next class finds its inherited fields. -/
theorem inherited_eq (names : schema.DistinctNames)
    (split : schema.preorder = done ++ node :: rest) :
    ((schema.parent? node).map ((schema.hierarchy.laidOut done).fieldsOf ·.name)).getD [] =
      flatten (schema.hierarchy.chain node).dropLast := by
  have line := chain_of_next names split
  generalize shape : schema.hierarchy.chain node = chain at line
  cases line with
  | top member alone =>
    rw [(parent?_eq_none names member).mpr alone]
    rfl
  | extend link above =>
    rw [(parent?_eq_some names link.1).mpr link,Option.map_some,Option.getD_some,
      fieldsOf_laidOut names (done_subset names split) (superclass_before names split link),
      chain_eq schema.hierarchy names above,List.dropLast_concat]

theorem layOut_next (names : schema.DistinctNames)
    (split : schema.preorder = done ++ node :: rest) :
    schema.hierarchy.layOut (schema.hierarchy.laidOut done) node =
      schema.hierarchy.laidOut (done ++ [node]) := by
  have line := chain_of_next names split
  have whole := flatten_concat (schema.hierarchy.chain node).dropLast node
  rw [← line.ends] at whole
  have inherited := inherited_eq names split
  simp only [layOut,laidOut,List.map_append,List.flatMap_append,List.map_singleton,
    List.flatMap_singleton,layout,redeclarations,whole]
  simp only [laidOut] at inherited
  rw [← inherited]
  rfl

/-- The pass gives each class the layout it has by itself, and each redeclaration once. -/
theorem flattening_eq (names : schema.DistinctNames) :
    schema.hierarchy.flattening = schema.hierarchy.laidOut schema.preorder := by
  have pass (done rest : List NodeDecl) (split : schema.preorder = done ++ rest) :
      rest.foldl schema.hierarchy.layOut (schema.hierarchy.laidOut done) =
        schema.hierarchy.laidOut (done ++ rest) := by
    induction rest generalizing done with
    | nil => simp
    | cons node rest ih =>
      rw [List.foldl_cons,layOut_next names split,ih (done ++ [node]) (by simp [split])]
      simp
  exact pass [] schema.preorder rfl

end NodeModel.Hierarchy
