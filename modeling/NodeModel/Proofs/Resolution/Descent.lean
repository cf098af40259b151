import NodeModel.Proofs.Hierarchy.Blocks
import NodeModel.Proofs.Resolution.Leaves

/-! Hierarchies and resolved models: the classes come in the pre-order of the schema, and what a
class says of those above and below it can be read off that order. -/
namespace NodeModel.Schema

variable {schema : Schema} {externals : NameSet} {node : NodeDecl}
  {chain order block : List NodeDecl}

/-- What the classes of a model say of each other, against the superclass links of the schema and
the order of its classes. -/
structure Descends (schema : Schema) (order : List NodeDecl) (model : Model) : Prop where
  classes : model.classes = order.map schema.record
  names : ∀ node, (schema.record node).name = node.name
  isSubclassOf : ∀ node ∈ schema.nodes, ∀ name, (schema.record node).isSubclassOf name = true ↔
    ∃ above, above.name = name ∧ Relation.ReflTransGen schema.Extends node above
  subclasses : ∀ node ∈ schema.nodes, ∃ children, schema.Listed (schema.Extends · node) children ∧
    (schema.record node).subclasses = children.map (·.name)
  leaves : ∀ node ∈ schema.nodes, ∃ block leaves, schema.LeadsBlock order node block ∧
    leaves.Sublist (node :: block) ∧
    (∀ other, other ∈ leaves ↔ other ∈ node :: block ∧ schema.Leaf other) ∧ leaves ≠ [] ∧
    model.leavesUnder node.name = leaves.map schema.record

theorem isSubclassOf_links (names : schema.DistinctNames) (line : schema.HasChain node chain)
    (name : String) : (schema.record node).isSubclassOf name = true ↔
      ∃ above, above.name = name ∧ Relation.ReflTransGen schema.Extends node above := by
  refine (isSubclassOf_iff names line).trans (exists_congr fun above => ?_)
  rw [and_comm,line.mem_iff_reaches names]

/-- The classes below one are those of its block and the class itself. -/
theorem isSubclassOf_block (names : schema.DistinctNames) (acyclic : schema.Acyclic)
    (leads : schema.LeadsBlock order node block) (member : node ∈ schema.nodes) {other : NodeDecl}
    (declared : other ∈ schema.nodes) :
    (schema.record other).isSubclassOf node.name = true ↔ other ∈ node :: block := by
  obtain ⟨chain,line⟩ := (acyclic_iff names).mp acyclic other declared
  rw [isSubclassOf_links names line,List.mem_cons,leads.1]
  constructor
  · rintro ⟨above,named,path⟩
    rcases Relation.reflTransGen_iff_eq_or_transGen.mp path with rfl | proper
    · exact .inl (eq_of_name names declared member named)
    · obtain rfl := eq_of_name names (Ancestor.declared proper).2 member named
      exact .inr proper
  · rintro (rfl | path)
    · exact ⟨_,rfl,.refl⟩
    · exact ⟨node,rfl,path.to_reflTransGen⟩

/-- A property that holds in a part of a list and nowhere else selects that part. -/
theorem filter_part {α : Type} {p : α → Bool} {before part after : List α}
    (distinct : (before ++ part ++ after).Nodup)
    (inside : ∀ x ∈ before ++ part ++ after, p x = true ↔ x ∈ part) :
    (before ++ part ++ after).filter p = part := by
  obtain ⟨first,_,late⟩ := List.nodup_append.mp distinct
  obtain ⟨_,_,early⟩ := List.nodup_append.mp first
  have holds : part.filter p = part := List.filter_eq_self.mpr fun x member =>
    (inside x (by simp [member])).mpr member
  have none_before : before.filter p = [] := List.filter_eq_nil_iff.mpr fun x member met =>
    early x member x ((inside x (by simp [member])).mp met) rfl
  have none_after : after.filter p = [] := List.filter_eq_nil_iff.mpr fun x member met =>
    late x (by simp [(inside x (by simp [member])).mp met]) x member rfl
  rw [List.filter_append,List.filter_append,none_before,holds,none_after,List.nil_append,
    List.append_nil]

namespace Acceptable

theorem leavesUnder_block (ok : schema.Acceptable externals) (member : node ∈ schema.nodes)
    (leads : schema.LeadsBlock schema.preorder node block) :
    (schema.resolvedModel externals).leavesUnder node.name =
      ((node :: block).filter fun other => (schema.record other).isLeaf).map schema.record := by
  have classes : (schema.resolvedModel externals).classes = schema.preorder.map schema.record :=
    List.map_map
  have within : schema.preorder.filter (fun other =>
      (schema.record other).isSubclassOf node.name) = node :: block := by
    obtain ⟨before,after,split⟩ := leads.2
    have distinct := preorder_nodup ok.names
    have declared := (preorder_perm ok.names ok.acyclic).subset
    rw [split] at distinct declared ⊢
    exact filter_part distinct fun other inside =>
      isSubclassOf_block ok.names ok.acyclic leads member (declared inside)
  rw [Model.leavesUnder,Model.leaves,classes,List.filter_map,List.filter_map,List.filter_comm,
    ← within]
  rfl

theorem descends (ok : schema.Acceptable externals) :
    schema.Descends schema.preorder (schema.resolvedModel externals) := by
  have lines := (acyclic_iff ok.names).mp ok.acyclic
  constructor
  case classes => exact List.map_map
  case names => exact fun node => rfl
  case isSubclassOf =>
    intro node member
    obtain ⟨chain,line⟩ := lines node member
    exact isSubclassOf_links ok.names line
  case subclasses =>
    exact fun node member => ⟨_,listed_extending member,record_subclasses member⟩
  case leaves =>
    intro node member
    obtain ⟨chain,line⟩ := lines node member
    have leads := leadsBlock ok.names line
    have leaf_iff (other : NodeDecl) :
        other ∈ (node :: schema.below node).filter (fun other => (schema.record other).isLeaf) ↔
          other ∈ node :: schema.below node ∧ schema.Leaf other := by
      rw [List.mem_filter]
      refine and_congr_right fun inside => record_isLeaf ?_
      rcases List.mem_cons.mp inside with rfl | lower
      · exact member
      · exact member_of_ancestor ((leads.1 other).mp lower)
    refine ⟨_,_,leads,List.filter_sublist,leaf_iff,?_,ok.leavesUnder_block member leads⟩
    by_cases leaf : schema.Leaf node
    · exact List.ne_nil_of_mem ((leaf_iff node).mpr ⟨List.mem_cons_self,leaf⟩)
    · obtain ⟨last,path,ends⟩ := exists_leaf ok.names line leaf
      have inside := List.mem_cons_of_mem node ((leads.1 last).mpr path)
      exact List.ne_nil_of_mem ((leaf_iff last).mpr ⟨inside,ends⟩)

end Acceptable

/-- A hierarchy holds the classes of its schema in pre-order, each in front of its descendants. In
a model that the schema resolves to, the classes follow that order; each is a subclass of what its
superclass links reach, and has as its leaves those of its block. -/
theorem build_preordered {hierarchy : Hierarchy} (built : Hierarchy.build schema = .ok hierarchy) :
    schema.Preordered hierarchy.order ∧ ∀ externals model,
      schema.resolveWith externals = .ok model → schema.Descends hierarchy.order model := by
  obtain ⟨graph,rfl⟩ := Hierarchy.build_eq_ok_iff.mp built
  refine ⟨graph.preordered,fun externals model resolved => ?_⟩
  obtain ⟨ok,rfl⟩ := resolveWith_eq_ok.mp resolved
  exact ok.descends

def wooded : Schema where
  root := some "Node"
  nodes := [
    { name := "Add", superclass := some "Binary" },
    { name := "Stmt", superclass := some "Node" },
    { name := "Name", superclass := some "Expr" },
    { name := "Expr" },
    { name := "Binary", superclass := some "Expr" }]

theorem build_preordered_wooded :
    Hierarchy.build wooded = .ok wooded.hierarchy ∧
    wooded.hierarchy.order.map (·.name) = ["Stmt","Expr","Name","Binary","Add"] ∧
    wooded.Preordered wooded.hierarchy.order ∧
    wooded.Descends wooded.hierarchy.order (wooded.resolvedModel ⟨[]⟩) := by
  have built : Hierarchy.build wooded = .ok wooded.hierarchy := by rfl
  have both := build_preordered built
  exact ⟨built,by decide,both.1,both.2 ⟨[]⟩ _ (by rfl)⟩

end NodeModel.Schema
