import Mathlib.Data.Fintype.Card
import Mathlib.Data.Fintype.EquivFin
import Mathlib.Data.Fintype.Sets
import Mathlib.Data.List.Nodup
import Mathlib.Logic.Relation
import NodeModel.Hierarchy.Layout
import NodeModel.Proofs.Lookup

/-! The superclass relation of a schema and the chains it gives rise to. A class has a chain exactly
if no cycle lies above it; where all have one, the bounded climb of the hierarchy finds it. -/
namespace NodeModel.Schema

def DistinctNames (schema : Schema) : Prop := (schema.nodes.map (·.name)).Nodup

def Extends (schema : Schema) (node parent : NodeDecl) : Prop :=
  node ∈ schema.nodes ∧ parent ∈ schema.nodes ∧ node.superclass = some parent.name

def Ancestor (schema : Schema) (node above : NodeDecl) : Prop :=
  Relation.TransGen schema.Extends node above

def Acyclic (schema : Schema) : Prop := ∀ node, ¬ schema.Ancestor node node

/-- `chain` leads from a class without a declared superclass down to `node`. -/
inductive HasChain (schema : Schema) : NodeDecl → List NodeDecl → Prop where
  | top {node : NodeDecl} (member : node ∈ schema.nodes)
      (alone : ∀ parent, ¬ schema.Extends node parent) : HasChain schema node [node]
  | extend {node parent : NodeDecl} {chain : List NodeDecl} (link : schema.Extends node parent)
      (above : HasChain schema parent chain) : HasChain schema node (chain ++ [node])

variable {schema : Schema}

theorem nodes_nodup (names : schema.DistinctNames) : schema.nodes.Nodup := List.Nodup.of_map _ names

theorem eq_of_name (names : schema.DistinctNames) {a b : NodeDecl} (left : a ∈ schema.nodes)
    (right : b ∈ schema.nodes) (same : a.name = b.name) : a = b :=
  List.inj_on_of_nodup_map names left right same

theorem node?_eq_some (names : schema.DistinctNames) {name : String} {node : NodeDecl} :
    schema.node? name = some node ↔ node ∈ schema.nodes ∧ node.name = name := by
  constructor
  · intro found
    exact ⟨List.mem_of_find?_eq_some found,by simpa using List.find?_some found⟩
  · rintro ⟨member,rfl⟩
    exact find?_of_mem (·.name) member fun other inside => eq_of_name names inside member

theorem declares_iff {name : String} :
    schema.declares name = true ↔ ∃ node ∈ schema.nodes, node.name = name := by
  simp [declares,node?,List.find?_isSome]

theorem parent?_eq_some (names : schema.DistinctNames) {node parent : NodeDecl}
    (member : node ∈ schema.nodes) :
    schema.parent? node = some parent ↔ schema.Extends node parent := by
  simp only [parent?,Option.bind_eq_some_iff,node?_eq_some names,Extends]
  constructor
  · rintro ⟨_,named,declared,rfl⟩
    exact ⟨member,declared,named⟩
  · rintro ⟨_,declared,named⟩
    exact ⟨_,named,declared,rfl⟩

theorem parent?_eq_none (names : schema.DistinctNames) {node : NodeDecl}
    (member : node ∈ schema.nodes) :
    schema.parent? node = none ↔ ∀ parent, ¬ schema.Extends node parent := by
  rw [Option.eq_none_iff_forall_not_mem]
  exact forall_congr' fun parent => not_congr (parent?_eq_some names member)

theorem Extends.unique (names : schema.DistinctNames) {node a b : NodeDecl}
    (left : schema.Extends node a) (right : schema.Extends node b) : a = b :=
  eq_of_name names left.2.1 right.2.1 (Option.some.inj (left.2.2.symm.trans right.2.2))

namespace HasChain

theorem ends {node : NodeDecl} {chain : List NodeDecl} (line : schema.HasChain node chain) :
    chain = chain.dropLast ++ [node] := by
  cases line <;> simp

theorem self_mem {node : NodeDecl} {chain : List NodeDecl} (line : schema.HasChain node chain) :
    node ∈ chain := by
  rw [line.ends]
  simp

theorem member {node : NodeDecl} {chain : List NodeDecl} (line : schema.HasChain node chain) :
    node ∈ schema.nodes := by
  cases line with
  | top member _ => exact member
  | extend link _ => exact link.1

theorem unique (names : schema.DistinctNames) {node : NodeDecl} {chain other : List NodeDecl}
    (line : schema.HasChain node chain) (line' : schema.HasChain node other) : chain = other := by
  induction line generalizing other with
  | top member alone =>
    cases line' with
    | top => rfl
    | extend link _ => exact absurd link (alone _)
  | extend link above ih =>
    cases line' with
    | top _ alone => exact absurd link (alone _)
    | extend link' above' =>
      cases link.unique names link'
      rw [ih above']

/-- Each class of a chain has the part up to itself as its own chain. -/
theorem prefix_of_mem {node : NodeDecl} {chain : List NodeDecl}
    (line : schema.HasChain node chain) {other : NodeDecl} (member : other ∈ chain) :
    ∃ part, schema.HasChain other part ∧ part <+: chain := by
  induction line with
  | top declared alone =>
    cases List.mem_singleton.mp member
    exact ⟨_,.top declared alone,List.prefix_refl _⟩
  | extend link above ih =>
    rcases List.mem_append.mp member with earlier | last
    · obtain ⟨part,line,initial⟩ := ih earlier
      exact ⟨part,line,initial.trans (List.prefix_append _ _)⟩
    · cases List.mem_singleton.mp last
      exact ⟨_,.extend link above,List.prefix_refl _⟩

theorem subset {node : NodeDecl} {chain : List NodeDecl} (line : schema.HasChain node chain) :
    chain ⊆ schema.nodes := by
  intro other inside
  obtain ⟨_,part,_⟩ := line.prefix_of_mem inside
  exact part.member

theorem nodup (names : schema.DistinctNames) {node : NodeDecl} {chain : List NodeDecl}
    (line : schema.HasChain node chain) : chain.Nodup := by
  induction line with
  | top => exact List.nodup_singleton _
  | @extend node _ chain link above ih =>
    rw [← List.concat_eq_append]
    refine ih.concat fun repeated => ?_
    -- A second occurrence would give the class two chains of different lengths.
    obtain ⟨part,line,initial⟩ := above.prefix_of_mem repeated
    have same := line.unique names (.extend link above)
    have bound := initial.length_le
    simp only [same,List.length_append,List.length_singleton] at bound
    omega

theorem length_le (names : schema.DistinctNames) {node : NodeDecl} {chain : List NodeDecl}
    (line : schema.HasChain node chain) : chain.length ≤ schema.nodes.length :=
  (List.subperm_of_subset (line.nodup names) line.subset).length_le

/-- The bounded climb finds the chain once the bound reaches its length. -/
theorem lineage_eq (names : schema.DistinctNames) {node : NodeDecl} {chain : List NodeDecl}
    (line : schema.HasChain node chain) (fuel : Nat) (enough : chain.length ≤ fuel + 1) :
    Hierarchy.lineage schema fuel node = chain.reverse := by
  induction line generalizing fuel with
  | top member alone =>
    have none := (parent?_eq_none names member).mpr alone
    cases fuel <;> simp [Hierarchy.lineage,none]
  | extend link above ih =>
    have some := (parent?_eq_some names link.1).mpr link
    cases fuel with
    | zero =>
      have filled := congrArg List.length above.ends
      simp at enough filled
      simp [enough] at filled
    | succ fuel =>
      simp only [List.length_append,List.length_singleton] at enough
      simp [Hierarchy.lineage,some,ih fuel (by omega)]

/-- An ancestor stands on the chain, before the class itself. -/
theorem shorter_of_ancestor {node above : NodeDecl} {chain : List NodeDecl}
    (names : schema.DistinctNames) (line : schema.HasChain node chain)
    (path : schema.Ancestor node above) :
    ∃ part, schema.HasChain above part ∧ part <+: chain.dropLast := by
  induction path with
  | single link =>
    cases line with
    | top _ alone => exact absurd link (alone _)
    | extend link' line' =>
      cases link.unique names link'
      exact ⟨_,line',by simp⟩
  | tail _ link ih =>
    obtain ⟨part,line',initial⟩ := ih
    cases line' with
    | top _ alone => exact absurd link (alone _)
    | extend link' line'' =>
      cases link.unique names link'
      exact ⟨_,line'',(List.prefix_append _ _).trans initial⟩

theorem ancestor_of_mem {node other : NodeDecl} {chain : List NodeDecl}
    (line : schema.HasChain node chain) (member : other ∈ chain.dropLast) :
    schema.Ancestor node other := by
  induction line with
  | top => simp at member
  | extend link above ih =>
    rw [List.dropLast_concat,above.ends] at member
    rcases List.mem_append.mp member with earlier | last
    · exact Relation.TransGen.head link (ih earlier)
    · cases List.mem_singleton.mp last
      exact .single link

/-- The proper ancestors of a class are the classes of its chain before itself. -/
theorem mem_dropLast_iff (names : schema.DistinctNames) {node other : NodeDecl}
    {chain : List NodeDecl} (line : schema.HasChain node chain) :
    other ∈ chain.dropLast ↔ schema.Ancestor node other := by
  refine ⟨line.ancestor_of_mem,fun path => ?_⟩
  obtain ⟨part,line',initial⟩ := line.shorter_of_ancestor names path
  exact initial.subset line'.self_mem

theorem mem_iff (names : schema.DistinctNames) {node other : NodeDecl} {chain : List NodeDecl}
    (line : schema.HasChain node chain) :
    other ∈ chain ↔ node = other ∨ schema.Ancestor node other := by
  rw [← line.mem_dropLast_iff names]
  nth_rewrite 1 [line.ends]
  simp only [List.mem_append,List.mem_singleton]
  rw [or_comm,eq_comm]

theorem mem_iff_reaches (names : schema.DistinctNames) {node other : NodeDecl}
    {chain : List NodeDecl} (line : schema.HasChain node chain) :
    other ∈ chain ↔ Relation.ReflTransGen schema.Extends node other := by
  rw [line.mem_iff names,Relation.reflTransGen_iff_eq_or_transGen,eq_comm]
  rfl

end HasChain

theorem Ancestor.declared {node above : NodeDecl} (path : schema.Ancestor node above) :
    node ∈ schema.nodes ∧ above ∈ schema.nodes := by
  induction path with
  | single link => exact ⟨link.1,link.2.1⟩
  | tail _ link ih => exact ⟨ih.1,link.2.1⟩

theorem not_ancestor_self (names : schema.DistinctNames) {node : NodeDecl} {chain : List NodeDecl}
    (line : schema.HasChain node chain) : ¬ schema.Ancestor node node := by
  intro path
  obtain ⟨part,line',initial⟩ := line.shorter_of_ancestor names path
  cases line.unique names line'
  have bound := initial.length_le
  have filled := congrArg List.length line.ends
  simp only [List.length_append,List.length_dropLast,List.length_singleton] at bound filled
  omega

/-- Without cycles the superclass relation on the declared classes is well-founded, as these are
finitely many. -/
theorem wellFounded_of_acyclic (acyclic : schema.Acyclic) :
    WellFounded fun above node : { node // node ∈ schema.nodes } =>
      schema.Ancestor node.1 above.1 := by
  have transitive : IsTrans { node // node ∈ schema.nodes } fun above node =>
      schema.Ancestor node.1 above.1 := ⟨fun _ _ _ first second => second.trans first⟩
  have irreflexive : Std.Irrefl fun above node : { node // node ∈ schema.nodes } =>
      schema.Ancestor node.1 above.1 := ⟨fun node => acyclic node.1⟩
  exact Finite.wellFounded_of_trans_of_irrefl _

theorem acyclic_iff (names : schema.DistinctNames) :
    schema.Acyclic ↔ ∀ node ∈ schema.nodes, ∃ chain, schema.HasChain node chain := by
  constructor
  · intro acyclic node member
    have line (node : { node // node ∈ schema.nodes }) : ∃ chain, schema.HasChain node.1 chain := by
      induction node using (wellFounded_of_acyclic acyclic).induction with
      | _ node ih =>
        by_cases alone : ∃ parent, schema.Extends node.1 parent
        · obtain ⟨parent,link⟩ := alone
          obtain ⟨chain,above⟩ := ih ⟨parent,link.2.1⟩ (.single link)
          exact ⟨_,.extend link above⟩
        · exact ⟨_,.top node.2 (not_exists.mp alone)⟩
    exact line ⟨node,member⟩
  · intro lines node path
    obtain ⟨chain,line⟩ := lines node path.declared.1
    exact not_ancestor_self names line path

end NodeModel.Schema
