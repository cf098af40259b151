import NodeModel.Proofs.Hierarchy.Superclass

/-! The stack walk of a hierarchy against the recursive pre-order. The walk keeps no record of the
classes it has seen: as a class has one superclass at most, it cannot meet one twice. -/
namespace NodeModel.Schema

def tour (schema : Schema) : Nat → NodeDecl → List NodeDecl
  | 0, _ => []
  | depth + 1, node => node :: (schema.extending node.name).flatMap (schema.tour depth)

/-- The pre-order of the whole forest. No chain is longer than the list of classes. -/
def forest (schema : Schema) : List NodeDecl :=
  schema.topLevel.flatMap (schema.tour schema.nodes.length)

variable {schema : Schema}

theorem mem_extending {parent child : NodeDecl} (declared : parent ∈ schema.nodes) :
    child ∈ schema.extending parent.name ↔ schema.Extends child parent := by
  simp [extending,Extends,declared]

theorem mem_topLevel (names : schema.DistinctNames) {node : NodeDecl} :
    node ∈ schema.topLevel ↔ schema.HasChain node [node] := by
  simp only [topLevel,List.mem_filter,Option.isNone_iff_eq_none]
  constructor
  · rintro ⟨member,alone⟩
    exact .top member ((parent?_eq_none names member).mp alone)
  · intro line
    refine ⟨line.member,(parent?_eq_none names line.member).mpr ?_⟩
    generalize shape : [node] = chain at line
    cases line with
    | top _ alone => exact alone
    | extend _ above =>
      have filled := congrArg List.length shape
      have ends := congrArg List.length above.ends
      simp at filled ends
      simp [filled] at ends

/-- A level more adds nothing once the chains have no room to grow. -/
theorem tour_stable (names : schema.DistinctNames) {node : NodeDecl} {chain : List NodeDecl}
    (line : schema.HasChain node chain) (depth : Nat)
    (deep : schema.nodes.length < chain.length + depth) :
    schema.tour (depth + 1) node = schema.tour depth node := by
  induction depth generalizing node chain with
  | zero =>
    have bound := line.length_le names
    omega
  | succ depth ih =>
    rw [tour,tour]
    congr 1
    apply List.flatMap_congr
    intro child member
    have link := (mem_extending line.member).mp member
    exact ih (.extend link line) (by simp; omega)

/-- The pre-order of a class is the class followed by those of its subclasses. -/
theorem tour_eq (names : schema.DistinctNames) {node : NodeDecl} {chain : List NodeDecl}
    (line : schema.HasChain node chain) :
    schema.tour schema.nodes.length node =
      node :: (schema.extending node.name).flatMap (schema.tour schema.nodes.length) := by
  have filled := congrArg List.length line.ends
  simp only [List.length_append,List.length_singleton] at filled
  rw [← tour_stable names line schema.nodes.length (by omega),tour]

theorem unstack_eq (names : schema.DistinctNames) (fuel : Nat) (stack : List NodeDecl)
    (lines : ∀ node ∈ stack, ∃ chain, schema.HasChain node chain) :
    schema.unstack fuel stack = (stack.flatMap (schema.tour schema.nodes.length)).take fuel := by
  induction fuel generalizing stack with
  | zero => simp [unstack]
  | succ fuel ih =>
    cases stack with
    | nil => simp [unstack]
    | cons node stack =>
      obtain ⟨chain,line⟩ := lines node List.mem_cons_self
      have next : ∀ other ∈ schema.extending node.name ++ stack,
          ∃ chain, schema.HasChain other chain := by
        intro other member
        rcases List.mem_append.mp member with child | later
        · exact ⟨_,.extend ((mem_extending line.member).mp child) line⟩
        · exact lines other (List.mem_cons_of_mem _ later)
      rw [unstack,ih _ next,List.flatMap_cons,tour_eq names line]
      simp

/-- What is met below a class has the class on its chain. -/
theorem chain_of_mem_tour {node other : NodeDecl} {chain : List NodeDecl} {depth : Nat}
    (line : schema.HasChain node chain) (member : other ∈ schema.tour depth node) :
    ∃ longer, schema.HasChain other longer ∧ chain <+: longer := by
  induction depth generalizing node chain with
  | zero => simp [tour] at member
  | succ depth ih =>
    rcases List.mem_cons.mp member with rfl | lower
    · exact ⟨chain,line,List.prefix_refl _⟩
    · obtain ⟨child,child_mem,inside⟩ := List.mem_flatMap.mp lower
      have link := (mem_extending line.member).mp child_mem
      obtain ⟨longer,line',initial⟩ := ih (.extend link line) inside
      exact ⟨longer,line',(List.prefix_append _ _).trans initial⟩

theorem extending_nodup (names : schema.DistinctNames) (name : String) :
    (schema.extending name).Nodup :=
  (nodes_nodup names).filter _

/-- Two classes of one level are the same if one chain passes through both. -/
theorem eq_of_prefixes {a b : NodeDecl} {left right longer : List NodeDecl}
    (lineA : schema.HasChain a left) (lineB : schema.HasChain b right)
    (level : left.length = right.length) (initialA : left <+: longer) (initialB : right <+: longer) :
    a = b := by
  have same : left = right :=
    (List.prefix_of_prefix_length_le initialA initialB level.le).eq_of_length level
  have last := lineA.ends
  rw [same,lineB.ends] at last
  simp at last
  exact last.symm

/-- Two classes with chains of one length have no class in common below them. -/
theorem tour_disjoint (names : schema.DistinctNames) {a b : NodeDecl} {left right : List NodeDecl}
    {depth : Nat} (lineA : schema.HasChain a left) (lineB : schema.HasChain b right)
    (level : left.length = right.length) (apart : a ≠ b) :
    (schema.tour depth a).Disjoint (schema.tour depth b) := by
  intro other inA inB
  obtain ⟨longer,line,initialA⟩ := chain_of_mem_tour lineA inA
  obtain ⟨longer',line',initialB⟩ := chain_of_mem_tour lineB inB
  cases line.unique names line'
  exact apart (eq_of_prefixes lineA lineB level initialA initialB)

/-- Nothing below a class has its superclass below another class of the same level. -/
theorem not_extends_across (names : schema.DistinctNames) {a b : NodeDecl}
    {left right : List NodeDecl} {depth : Nat} (lineA : schema.HasChain a left)
    (lineB : schema.HasChain b right) (level : left.length = right.length) (apart : a ≠ b) :
    ∀ lower ∈ schema.tour depth a, ∀ upper ∈ schema.tour depth b,
      ¬ schema.Extends lower upper := by
  intro lower inA upper inB link
  obtain ⟨longer,line,initialA⟩ := chain_of_mem_tour lineA inA
  obtain ⟨above,line',initialB⟩ := chain_of_mem_tour lineB inB
  cases line.unique names (.extend link line')
  exact apart (eq_of_prefixes lineA lineB level initialA
    (initialB.trans (List.prefix_append _ _)))

theorem tour_nodup (names : schema.DistinctNames) {node : NodeDecl} {chain : List NodeDecl}
    (line : schema.HasChain node chain) (depth : Nat) : (schema.tour depth node).Nodup := by
  induction depth generalizing node chain with
  | zero => simp [tour]
  | succ depth ih =>
    have below {child : NodeDecl} (member : child ∈ schema.extending node.name) :
        schema.HasChain child (chain ++ [child]) :=
      .extend ((mem_extending line.member).mp member) line
    rw [tour,List.nodup_cons,List.nodup_flatMap]
    refine ⟨?_,fun child member => ih (below member),?_⟩
    · intro again
      obtain ⟨child,member,inside⟩ := List.mem_flatMap.mp again
      obtain ⟨longer,line',initial⟩ := chain_of_mem_tour (below member) inside
      have bound := initial.length_le
      rw [line'.unique names line] at bound
      simp only [List.length_append,List.length_singleton] at bound
      omega
    · refine (extending_nodup names _).imp_of_mem ?_
      intro a b inA inB apart
      exact tour_disjoint names (below inA) (below inB) (by simp) apart

theorem forest_nodup (names : schema.DistinctNames) : schema.forest.Nodup := by
  rw [forest,List.nodup_flatMap]
  constructor
  · intro node member
    exact tour_nodup names ((mem_topLevel names).mp member) _
  · have distinct : schema.topLevel.Nodup := (nodes_nodup names).filter _
    refine distinct.imp_of_mem ?_
    intro a b inA inB apart
    exact tour_disjoint names ((mem_topLevel names).mp inA) ((mem_topLevel names).mp inB) rfl apart

theorem tour_extend {node parent child : NodeDecl} {depth : Nat}
    (link : schema.Extends child parent) (member : parent ∈ schema.tour depth node) :
    child ∈ schema.tour (depth + 1) node := by
  induction depth generalizing node with
  | zero => simp [tour] at member
  | succ depth ih =>
    rcases List.mem_cons.mp member with rfl | lower
    · refine List.mem_cons_of_mem _ (List.mem_flatMap.mpr ⟨child,?_,List.mem_cons_self⟩)
      exact (mem_extending link.2.1).mpr link
    · obtain ⟨next,next_mem,inside⟩ := List.mem_flatMap.mp lower
      exact List.mem_cons_of_mem _ (List.mem_flatMap.mpr ⟨next,next_mem,ih inside⟩)

/-- The walk meets a class exactly if the class has a chain. -/
theorem mem_forest (names : schema.DistinctNames) {node : NodeDecl} :
    node ∈ schema.forest ↔ ∃ chain, schema.HasChain node chain := by
  constructor
  · intro member
    obtain ⟨top,top_mem,inside⟩ := List.mem_flatMap.mp member
    obtain ⟨longer,line,_⟩ := chain_of_mem_tour ((mem_topLevel names).mp top_mem) inside
    exact ⟨longer,line⟩
  · rintro ⟨chain,line⟩
    induction line with
    | @top node member alone =>
      have line : schema.HasChain node [node] := .top member alone
      refine List.mem_flatMap.mpr ⟨node,(mem_topLevel names).mpr line,?_⟩
      rw [tour_eq names line]
      exact List.mem_cons_self
    | extend link above ih =>
      obtain ⟨top,top_mem,inside⟩ := List.mem_flatMap.mp ih
      have lower := tour_extend link inside
      rw [tour_stable names ((mem_topLevel names).mp top_mem) _ (by simp)] at lower
      exact List.mem_flatMap.mpr ⟨top,top_mem,lower⟩

theorem forest_subset (names : schema.DistinctNames) : schema.forest ⊆ schema.nodes := by
  intro node member
  obtain ⟨_,line⟩ := (mem_forest names).mp member
  exact line.member

/-- The bound on the steps of the walk is never felt. -/
theorem preorder_eq (names : schema.DistinctNames) : schema.preorder = schema.forest := by
  have bound := (List.subperm_of_subset (forest_nodup names) (forest_subset names)).length_le
  rw [preorder,unstack_eq names _ _ fun node member => ⟨_,(mem_topLevel names).mp member⟩]
  exact List.take_of_length_le bound

theorem mem_preorder (names : schema.DistinctNames) {node : NodeDecl} :
    node ∈ schema.preorder ↔ ∃ chain, schema.HasChain node chain := by
  rw [preorder_eq names,mem_forest names]

theorem preorder_nodup (names : schema.DistinctNames) : schema.preorder.Nodup := by
  rw [preorder_eq names]
  exact forest_nodup names

/-- Without cycles the walk meets every class once. -/
theorem preorder_perm (names : schema.DistinctNames) (acyclic : schema.Acyclic) :
    schema.preorder.Perm schema.nodes := by
  refine (List.perm_ext_iff_of_nodup (preorder_nodup names) (nodes_nodup names)).mpr fun node => ?_
  rw [mem_preorder names]
  exact ⟨fun ⟨_,line⟩ => line.member,(acyclic_iff names).mp acyclic node⟩

theorem tour_superclass_first (names : schema.DistinctNames) {node : NodeDecl}
    {chain : List NodeDecl} (line : schema.HasChain node chain) (depth : Nat) :
    (schema.tour depth node).Pairwise fun earlier later => ¬ schema.Extends earlier later := by
  induction depth generalizing node chain with
  | zero => simp [tour]
  | succ depth ih =>
    have below {child : NodeDecl} (member : child ∈ schema.extending node.name) :
        schema.HasChain child (chain ++ [child]) :=
      .extend ((mem_extending line.member).mp member) line
    rw [tour,List.pairwise_cons,List.pairwise_flatMap]
    refine ⟨?_,fun child member => ih (below member),?_⟩
    · intro other inside link
      obtain ⟨child,member,lower⟩ := List.mem_flatMap.mp inside
      obtain ⟨longer,line',initial⟩ := chain_of_mem_tour (below member) lower
      have same := congrArg List.length (line.unique names (.extend link line'))
      have bound := initial.length_le
      simp only [List.length_append,List.length_singleton] at same bound
      omega
    · refine (extending_nodup names _).imp_of_mem ?_
      intro a b inA inB apart
      exact not_extends_across names (below inA) (below inB) (by simp) apart

theorem forest_superclass_first (names : schema.DistinctNames) :
    schema.forest.Pairwise fun earlier later => ¬ schema.Extends earlier later := by
  rw [forest,List.pairwise_flatMap]
  constructor
  · intro node member
    exact tour_superclass_first names ((mem_topLevel names).mp member) _
  · have distinct : schema.topLevel.Nodup := (nodes_nodup names).filter _
    refine distinct.imp_of_mem ?_
    intro a b inA inB apart
    exact not_extends_across names ((mem_topLevel names).mp inA) ((mem_topLevel names).mp inB)
      rfl apart

/-- When a class comes up in the walk, its superclass has come up before. -/
theorem superclass_before (names : schema.DistinctNames) {done rest : List NodeDecl}
    {node parent : NodeDecl} (split : schema.preorder = done ++ node :: rest)
    (link : schema.Extends node parent) : parent ∈ done := by
  have ordered := forest_superclass_first names
  rw [← preorder_eq names,split,List.pairwise_append,List.pairwise_cons] at ordered
  obtain ⟨chain,line⟩ := (mem_preorder names).mp
    (show node ∈ schema.preorder by rw [split]; simp)
  have above : ∃ chain, schema.HasChain parent chain := by
    cases line with
    | top _ alone => exact absurd link (alone parent)
    | extend link' above =>
      cases link.unique names link'
      exact ⟨_,above⟩
  have reached := (mem_preorder names).mpr above
  rw [split,List.mem_append,List.mem_cons] at reached
  rcases reached with before | rfl | after
  · exact before
  · exact absurd (.single link) (not_ancestor_self names line)
  · exact absurd link (ordered.2.1.1 parent after)

/-- The walk reaches every class exactly if the superclass relation has no cycle. -/
theorem preorder_complete_iff (names : schema.DistinctNames) :
    schema.nodes.length ≤ schema.preorder.length ↔ schema.Acyclic := by
  rw [preorder_eq names,acyclic_iff names]
  have sub := List.subperm_of_subset (forest_nodup names) (forest_subset names)
  constructor
  · intro full node member
    exact (mem_forest names).mp ((sub.perm_of_length_le full).mem_iff.mpr member)
  · intro lines
    have all : schema.nodes ⊆ schema.forest := fun node member =>
      (mem_forest names).mpr (lines node member)
    exact (List.subperm_of_subset (nodes_nodup names) all).length_le

end NodeModel.Schema
