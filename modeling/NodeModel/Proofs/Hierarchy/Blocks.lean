import NodeModel.Proofs.Hierarchy.Structure

/-! The order in which a hierarchy holds its classes: what the stack walk comes to, the recursive
pre-order, and the block that a class makes up with the classes below it. -/
namespace NodeModel.Schema

/-- The stack walk, without a bound on its steps: the class on top of the stack comes next, and its
subclasses take its place, the first one on top. -/
inductive Unstacks (schema : Schema) : List NodeDecl → List NodeDecl → Prop where
  | done : Unstacks schema [] []
  | visit {node : NodeDecl} {stack order : List NodeDecl}
      (rest : Unstacks schema (schema.extending node.name ++ stack) order) :
      Unstacks schema (node :: stack) (node :: order)

/-- The declared classes with a property, in the order of their declarations. -/
structure Listed (schema : Schema) (P : NodeDecl → Prop) (listed : List NodeDecl) : Prop where
  ordered : listed.Sublist schema.nodes
  mem_iff : ∀ node, node ∈ listed ↔ node ∈ schema.nodes ∧ P node

/-- The pre-orders of some classes, one after the other: each class is followed by the pre-orders
of its direct subclasses, to any depth. -/
inductive Preorders (schema : Schema) : List NodeDecl → List NodeDecl → Prop where
  | nil : Preorders schema [] []
  | cons {node : NodeDecl} {siblings children below others : List NodeDecl}
      (direct : schema.Listed (schema.Extends · node) children)
      (own : Preorders schema children below) (rest : Preorders schema siblings others) :
      Preorders schema (node :: siblings) (node :: below ++ others)

/-- In `order`, a class is followed at once by its proper descendants and by no other class before
the last of them. -/
def LeadsBlock (schema : Schema) (order : List NodeDecl) (node : NodeDecl) (block : List NodeDecl) :
    Prop :=
  (∀ other, other ∈ block ↔ schema.Ancestor other node) ∧
    ∃ before after, order = before ++ node :: block ++ after

structure Preordered (schema : Schema) (order : List NodeDecl) : Prop where
  walked : ∀ result, schema.Unstacks schema.topLevel result ↔ result = order
  unbounded : ∀ fuel, schema.nodes.length ≤ fuel → schema.unstack fuel schema.topLevel = order
  tops : schema.Listed (fun node => ∀ parent, ¬ schema.Extends node parent) schema.topLevel
  recursive : schema.Preorders schema.topLevel order
  complete : order.Perm schema.nodes
  superclassFirst : ∀ before node after parent, order = before ++ node :: after →
    schema.Extends node parent → parent ∈ before
  blocks : ∀ node ∈ schema.nodes, ∃ block, schema.LeadsBlock order node block

variable {schema : Schema} {node other : NodeDecl} {chain stack order : List NodeDecl}

/-- A bound that leaves room for the whole order is never felt. -/
theorem Unstacks.unstack_eq (walk : schema.Unstacks stack order) {fuel : Nat}
    (enough : order.length ≤ fuel) : schema.unstack fuel stack = order := by
  induction walk generalizing fuel with
  | done => cases fuel <;> rfl
  | visit rest ih =>
    cases fuel with
    | zero => simp at enough
    | succ fuel => rw [unstack,ih (by simpa using enough)]

theorem tours_cons (names : schema.DistinctNames) (line : schema.HasChain node chain)
    (stack : List NodeDecl) :
    (node :: stack).flatMap (schema.tour schema.nodes.length) =
      node :: ((schema.extending node.name).flatMap (schema.tour schema.nodes.length) ++
        stack.flatMap (schema.tour schema.nodes.length)) := by
  rw [List.flatMap_cons,tour_eq names line,List.cons_append]

theorem lines_extending (line : schema.HasChain node chain) :
    ∀ child ∈ schema.extending node.name, ∃ chain, schema.HasChain child chain :=
  fun _ member => ⟨_,.extend ((mem_extending line.member).mp member) line⟩

theorem listed_extending (declared : node ∈ schema.nodes) :
    schema.Listed (schema.Extends · node) (schema.extending node.name) where
  ordered := List.filter_sublist
  mem_iff child := by
    rw [mem_extending declared]
    exact ⟨fun link => ⟨link.1,link⟩,And.right⟩

theorem listed_topLevel (names : schema.DistinctNames) :
    schema.Listed (fun node => ∀ parent, ¬ schema.Extends node parent) schema.topLevel where
  ordered := List.filter_sublist
  mem_iff node := by
    rw [topLevel,List.mem_filter,Option.isNone_iff_eq_none]
    exact and_congr_right fun member => parent?_eq_none names member

/-- The walk ends, as each step takes one class off what is still to come. -/
theorem unstacks_tours (names : schema.DistinctNames) (stack : List NodeDecl)
    (lines : ∀ node ∈ stack, ∃ chain, schema.HasChain node chain) :
    schema.Unstacks stack (stack.flatMap (schema.tour schema.nodes.length)) := by
  induction size : (stack.flatMap (schema.tour schema.nodes.length)).length generalizing stack with
  | zero =>
    cases stack with
    | nil => exact .done
    | cons node stack =>
      obtain ⟨chain,line⟩ := lines node List.mem_cons_self
      rw [tours_cons names line] at size
      cases size
  | succ size ih =>
    cases stack with
    | nil => cases size
    | cons node stack =>
      obtain ⟨⟨chain,line⟩,later⟩ := List.forall_mem_cons.mp lines
      rw [tours_cons names line,← List.flatMap_append] at size ⊢
      exact .visit (ih _ (List.forall_mem_append.mpr ⟨lines_extending line,later⟩)
        (Nat.succ.inj size))

theorem preorders_tours (names : schema.DistinctNames) (siblings : List NodeDecl)
    (lines : ∀ node ∈ siblings, ∃ chain, schema.HasChain node chain) :
    schema.Preorders siblings (siblings.flatMap (schema.tour schema.nodes.length)) := by
  induction size : (siblings.flatMap (schema.tour schema.nodes.length)).length
    using Nat.strong_induction_on generalizing siblings with
  | _ size ih =>
    cases siblings with
    | nil => exact .nil
    | cons node siblings =>
      obtain ⟨⟨chain,line⟩,later⟩ := List.forall_mem_cons.mp lines
      rw [tours_cons names line] at size ⊢
      simp only [List.length_cons,List.length_append] at size
      exact .cons (listed_extending line.member) (ih _ (by omega) _ (lines_extending line) rfl)
        (ih _ (by omega) _ later rfl)

def below (schema : Schema) (node : NodeDecl) : List NodeDecl :=
  (schema.extending node.name).flatMap (schema.tour schema.nodes.length)

theorem mem_tour (names : schema.DistinctNames) (line : schema.HasChain node chain) :
    other ∈ schema.tour schema.nodes.length node ↔ other = node ∨ schema.Ancestor other node := by
  have start : node ∈ schema.tour schema.nodes.length node := by
    rw [tour_eq names line]
    exact List.mem_cons_self
  have down {child parent : NodeDecl} (link : schema.Extends child parent)
      (member : parent ∈ schema.tour schema.nodes.length node) :
      child ∈ schema.tour schema.nodes.length node := by
    have filled := congrArg List.length line.ends
    simp only [List.length_append,List.length_singleton] at filled
    rw [← tour_stable names line _ (by omega)]
    exact tour_extend link member
  constructor
  · intro member
    obtain ⟨longer,line',initial⟩ := chain_of_mem_tour line member
    have inside : node ∈ longer := initial.subset (by rw [line.ends]; simp)
    rw [line'.ends,List.mem_append,List.mem_singleton] at inside
    rcases inside with above | rfl
    · exact .inr (line'.ancestor_of_mem above)
    · exact .inl rfl
  · rintro (rfl | path)
    · exact start
    · induction path using Relation.TransGen.head_induction_on with
      | single link => exact down link start
      | head link _ ih => exact down link ih

theorem mem_below (names : schema.DistinctNames) (line : schema.HasChain node chain) :
    other ∈ schema.below node ↔ schema.Ancestor other node := by
  have met : other ∈ node :: schema.below node ↔ other = node ∨ schema.Ancestor other node := by
    rw [← mem_tour names line,tour_eq names line]
    rfl
  have once := tour_nodup names line schema.nodes.length
  rw [tour_eq names line] at once
  constructor
  · intro inside
    refine (met.mp (List.mem_cons_of_mem _ inside)).resolve_left ?_
    rintro rfl
    exact (List.nodup_cons.mp once).1 inside
  · intro path
    refine (List.mem_cons.mp (met.mpr (.inr path))).resolve_left ?_
    rintro rfl
    exact not_ancestor_self names line path

theorem tour_part (names : schema.DistinctNames) (line : schema.HasChain node chain) :
    schema.tour schema.nodes.length node <:+: schema.forest := by
  induction line with
  | @top node member alone =>
    have reached := (mem_topLevel names).mpr (.top member alone)
    exact List.infix_of_mem_flatten (List.mem_map_of_mem reached)
  | @extend node parent _ link above ih =>
    have listed := (mem_extending above.member).mpr link
    have part : schema.tour schema.nodes.length node <:+: schema.below parent :=
      List.infix_of_mem_flatten (List.mem_map_of_mem listed)
    rw [tour_eq names above] at ih
    exact (part.trans (List.suffix_cons ..).isInfix).trans ih

theorem leadsBlock (names : schema.DistinctNames) (line : schema.HasChain node chain) :
    schema.LeadsBlock schema.preorder node (schema.below node) := by
  obtain ⟨before,after,split⟩ := tour_part names line
  rw [tour_eq names line] at split
  refine ⟨fun other => mem_below names line,before,after,?_⟩
  rw [preorder_eq names]
  exact split.symm

theorem Structured.preordered (ok : schema.Structured) : schema.Preordered schema.preorder := by
  have lines : ∀ node ∈ schema.topLevel, ∃ chain, schema.HasChain node chain :=
    fun node member => ⟨_,(mem_topLevel ok.names).mp member⟩
  have walk : schema.Unstacks schema.topLevel schema.preorder := by
    rw [preorder_eq ok.names]
    exact unstacks_tours ok.names _ lines
  have all := preorder_perm ok.names ok.acyclic
  constructor
  case walked =>
    refine fun result => ⟨fun other => ?_,fun same => same ▸ walk⟩
    rw [← other.unstack_eq (Nat.le_max_left result.length schema.preorder.length)]
    exact walk.unstack_eq (Nat.le_max_right ..)
  case unbounded => exact fun fuel enough => walk.unstack_eq (all.length_eq.le.trans enough)
  case tops => exact listed_topLevel ok.names
  case recursive =>
    rw [preorder_eq ok.names]
    exact preorders_tours ok.names _ lines
  case complete => exact all
  case superclassFirst => exact fun before node after parent => superclass_before ok.names
  case blocks =>
    intro node member
    obtain ⟨chain,line⟩ := (acyclic_iff ok.names).mp ok.acyclic node member
    exact ⟨_,leadsBlock ok.names line⟩

end NodeModel.Schema
