import NodeModel.Proofs.Resolution.Records

/-! The order in which the classes of a schema are declared. It shows in the order of subclasses and
of records, and in nothing else. -/
namespace NodeModel

namespace Model

structure Class.Alike (cls other : Class) : Prop where
  subclasses : cls.subclasses.Perm other.subclasses
  rest : { cls with subclasses := [] } = { other with subclasses := [] }

/-- Models with the same classes, whose records differ in the order of subclasses at most. -/
structure Alike (model other : Model) : Prop where
  root : model.root = other.root
  externals : model.externals = other.externals
  names : (model.classes.map (·.name)).Perm (other.classes.map (·.name))
  classes : ∀ cls ∈ model.classes, ∀ counterpart ∈ other.classes,
    cls.name = counterpart.name → cls.Alike counterpart

end Model

namespace Schema

structure Reorders (schema other : Schema) : Prop where
  root : schema.root = other.root
  externals : schema.externals = other.externals
  nodes : schema.nodes.Perm other.nodes

/-- Classes that have the same superclass, or none, stand in the same order. -/
def KeepsSiblings (schema other : Schema) : Prop :=
  ∀ first ∈ schema.nodes, ∀ second ∈ schema.nodes, schema.parent? first = schema.parent? second →
    [first,second].Sublist schema.nodes → [first,second].Sublist other.nodes

instance decidableKeepsSiblings (schema other : Schema) : Decidable (schema.KeepsSiblings other) :=
  inferInstanceAs (Decidable (∀ first ∈ schema.nodes, ∀ second ∈ schema.nodes, _))

variable {schema other : Schema} {externals : NameSet} {node : NodeDecl} {chain : List NodeDecl}

namespace Reorders

theorem symm (same : schema.Reorders other) : other.Reorders schema :=
  ⟨same.root.symm,same.externals.symm,same.nodes.symm⟩

theorem names (same : schema.Reorders other) (names : schema.DistinctNames) :
    other.DistinctNames :=
  ((same.nodes.map _).nodup_iff).mp names

theorem link (same : schema.Reorders other) {parent : NodeDecl}
    (link : schema.Extends node parent) : other.Extends node parent :=
  ⟨same.nodes.mem_iff.mp link.1,same.nodes.mem_iff.mp link.2.1,link.2.2⟩

theorem path (same : schema.Reorders other) {above : NodeDecl}
    (path : schema.Ancestor node above) : other.Ancestor node above :=
  Relation.TransGen.mono (fun _ _ => same.link) _ _ path

theorem line (same : schema.Reorders other) (line : schema.HasChain node chain) :
    other.HasChain node chain := by
  induction line with
  | top member alone =>
    exact .top (same.nodes.mem_iff.mp member) fun parent link => alone parent (same.symm.link link)
  | extend link above ih => exact .extend (same.link link) ih

theorem declares_eq (same : schema.Reorders other) (name : String) :
    schema.declares name = other.declares name := by
  rw [Bool.eq_iff_iff,declares_iff,declares_iff]
  simp only [same.nodes.mem_iff]

theorem structured (same : schema.Reorders other) (graph : schema.Structured) :
    other.Structured where
  names := same.names graph.names
  superclasses := by
    intro node member superclass named
    have known := graph.superclasses node (same.nodes.mem_iff.mpr member) superclass named
    simpa only [same.nodes.mem_iff,same.root] using known
  roots := by
    intro rootless
    rw [← (same.nodes.filter _).length_eq]
    exact graph.roots (same.root.trans rootless)
  acyclic node cycle := graph.acyclic node (same.symm.path cycle)

theorem acceptable (same : schema.Reorders other) (ok : schema.Acceptable externals) :
    other.Acceptable externals where
  toStructured := same.structured ok.toStructured
  fields node chain line := ok.fields node chain (same.symm.line line)
  types := by
    intro node member field inside
    have known := ok.types node (same.nodes.mem_iff.mpr member) field inside
    simpa only [FieldKind.Known,same.nodes.mem_iff] using known
  modes node member := ok.modes node (same.nodes.mem_iff.mpr member)
  pairs := by
    intro node chain pair line declared
    have bindable := ok.pairs node chain pair (same.symm.line line) declared
    exact
      { alone := fun above path => bindable.alone above (same.symm.path path)
        apart := bindable.apart
        name := bindable.name
        flag := bindable.flag }

theorem chain_eq (same : schema.Reorders other) (names : schema.DistinctNames)
    (line : schema.HasChain node chain) :
    schema.hierarchy.chain node = other.hierarchy.chain node := by
  rw [schema.hierarchy.chain_eq names line,
    other.hierarchy.chain_eq (same.names names) (same.line line)]

theorem resolvedFields_eq (same : schema.Reorders other) (names : schema.DistinctNames)
    (line : schema.HasChain node chain) :
    schema.hierarchy.resolvedFields node = other.hierarchy.resolvedFields node := by
  simp only [Hierarchy.resolvedFields,Hierarchy.layout,same.chain_eq names line]

theorem mangle?_eq (same : schema.Reorders other) (names : schema.DistinctNames)
    (line : schema.HasChain node chain) :
    schema.hierarchy.mangle? chain = other.hierarchy.mangle? chain := by
  unfold Hierarchy.mangle?
  cases found : chain.find? (·.indicators.mangle.isSome) with
  | none => rfl
  | some owner =>
    -- The pair is bound among the fields of the class that declares it, which has a chain too.
    obtain ⟨part,line',_⟩ := line.prefix_of_mem (List.mem_of_find?_eq_some found)
    simp [same.resolvedFields_eq names line']

theorem extending_perm (same : schema.Reorders other) (cls : String) :
    (schema.extending cls).Perm (other.extending cls) := same.nodes.filter _

theorem subclasses_perm (same : schema.Reorders other) (cls : String) :
    (schema.hierarchy.subclasses cls).Perm (other.hierarchy.subclasses cls) := by
  have declared : schema.hierarchy.contains cls = other.hierarchy.contains cls :=
    same.declares_eq cls
  unfold Hierarchy.subclasses
  rw [declared]
  split
  · exact (same.extending_perm cls).map _
  · exact .nil

/-- All of a record but its subclasses is read off the chain. -/
theorem record_eq (same : schema.Reorders other) (names : schema.DistinctNames)
    (line : schema.HasChain node chain) :
    schema.record node =
      { other.record node with subclasses := schema.hierarchy.subclasses node.name } := by
  have contains : schema.hierarchy.contains = other.hierarchy.contains :=
    funext same.declares_eq
  have chains := same.chain_eq names line
  have binding := same.mangle?_eq names line
  rw [← schema.hierarchy.chain_eq names line] at binding
  simp only [record,Hierarchy.resolveClass,Layout.resolved,Layout.name,Hierarchy.layout,contains,
    ← chains,binding]

theorem record_alike (same : schema.Reorders other) (names : schema.DistinctNames)
    (line : schema.HasChain node chain) : (schema.record node).Alike (other.record node) where
  subclasses := same.subclasses_perm node.name
  rest := by rw [same.record_eq names line]

theorem externals_eq (same : schema.Reorders other) (ok : schema.Acceptable externals) :
    (schema.resolvedModel externals).externals = (other.resolvedModel externals).externals := by
  have members (name : String) : name ∈ (schema.resolvedModel externals).externals ↔
      name ∈ (other.resolvedModel externals).externals := by
    rw [ok.mem_externals,(same.acceptable ok).mem_externals]
    simp only [same.nodes.mem_iff]
  exact (NameSet.ofList_sorted _).eq_of_mem_iff (NameSet.ofList_sorted _) members

theorem preorder_perm (same : schema.Reorders other) (graph : schema.Structured) :
    schema.preorder.Perm other.preorder :=
  (Schema.preorder_perm graph.names graph.acyclic).trans
    (same.nodes.trans
      (Schema.preorder_perm (same.names graph.names) (same.structured graph).acyclic).symm)

theorem alike (same : schema.Reorders other) (ok : schema.Acceptable externals) :
    (schema.resolvedModel externals).Alike (other.resolvedModel externals) where
  root := same.root
  externals := same.externals_eq ok
  names := by
    simp only [resolvedModel,Hierarchy.layouts,List.map_map]
    exact (same.preorder_perm ok.toStructured).map _
  classes := by
    intro cls member counterpart member' named
    obtain ⟨node,chain,line,rfl⟩ := (mem_resolvedModel ok.names).mp member
    obtain ⟨node',chain',line',rfl⟩ := (mem_resolvedModel (same.names ok.names)).mp member'
    obtain rfl : node = node' :=
      eq_of_name ok.names line.member (same.symm.line line').member named
    exact same.record_alike ok.names line

end Reorders

section Siblings

variable {α : Type} {items others : List α}

/-- In a list without repetitions, what comes first does not come second as well. -/
theorem eq_of_pair_sublists (distinct : items.Nodup) {first second : α}
    (forth : [first,second].Sublist items) (back : [second,first].Sublist items) :
    first = second := by
  induction distinct with
  | nil => simp at forth
  | @cons item rest fresh _ ih =>
    rcases List.sublist_cons_iff.mp forth with later | ⟨_,shape,_⟩
    · rcases List.sublist_cons_iff.mp back with later' | ⟨_,shape',_⟩
      · exact ih later later'
      · have here : second = item := (List.cons.inj shape').1
        exact absurd here.symm (fresh second (later.subset (by simp)))
    · have here : first = item := (List.cons.inj shape).1
      rcases List.sublist_cons_iff.mp back with later' | ⟨_,shape',_⟩
      · exact absurd here.symm (fresh first (later'.subset (by simp)))
      · exact here.trans (List.cons.inj shape').1.symm

/-- A part of two lists is the same if its pairs stand in the same order. -/
theorem filter_eq_of_pairs (perm : items.Perm others) (distinct : items.Nodup) (keep : α → Bool)
    (order : ∀ first second, first ∈ items.filter keep → second ∈ items.filter keep →
      [first,second].Sublist items → [first,second].Sublist others) :
    items.filter keep = others.filter keep := by
  have ordered : (items.filter keep).Pairwise fun first second => [first,second].Sublist others := by
    rw [List.pairwise_iff_forall_sublist]
    intro first second inside
    exact order first second (inside.subset (by simp)) (inside.subset (by simp))
      (inside.trans List.filter_sublist)
  have ordered' : (others.filter keep).Pairwise fun first second => [first,second].Sublist others := by
    rw [List.pairwise_iff_forall_sublist]
    intro first second inside
    exact inside.trans List.filter_sublist
  refine List.Perm.eq_of_pairwise ?_ ordered ordered' (perm.filter keep)
  intro first second _ _ forth back
  exact eq_of_pair_sublists (perm.nodup_iff.mp distinct) forth back

end Siblings

namespace Reorders

variable (same : schema.Reorders other) (names : schema.DistinctNames)

include same names

theorem parent?_eq (member : node ∈ schema.nodes) : schema.parent? node = other.parent? node := by
  apply Option.ext
  intro parent
  have member' := same.nodes.mem_iff.mp member
  rw [parent?_eq_some names member,parent?_eq_some (same.names names) member']
  exact ⟨same.link,same.symm.link⟩

theorem topLevel_eq (order : schema.KeepsSiblings other) : schema.topLevel = other.topLevel := by
  have kept : schema.topLevel = other.nodes.filter fun node => (schema.parent? node).isNone := by
    refine filter_eq_of_pairs same.nodes (nodes_nodup names) _ fun first second left right pair => ?_
    obtain ⟨member,alone⟩ := List.mem_filter.mp left
    obtain ⟨member',alone'⟩ := List.mem_filter.mp right
    refine order first member second member' ?_ pair
    rw [Option.isNone_iff_eq_none.mp alone,Option.isNone_iff_eq_none.mp alone']
  rw [kept]
  apply List.filter_congr
  intro node member
  rw [same.parent?_eq names (same.nodes.mem_iff.mpr member)]

theorem extending_eq (order : schema.KeepsSiblings other) (member : node ∈ schema.nodes) :
    schema.extending node.name = other.extending node.name := by
  refine filter_eq_of_pairs same.nodes (nodes_nodup names) _ fun first second left right pair => ?_
  have link := (mem_extending member).mp left
  have link' := (mem_extending member).mp right
  refine order first link.1 second link'.1 ?_ pair
  rw [(parent?_eq_some names link.1).mpr link,(parent?_eq_some names link'.1).mpr link']

theorem tour_eq (order : schema.KeepsSiblings other) (depth : Nat) (member : node ∈ schema.nodes) :
    schema.tour depth node = other.tour depth node := by
  induction depth generalizing node with
  | zero => rfl
  | succ depth ih =>
    rw [tour,tour,← same.extending_eq names order member]
    refine congrArg (node :: ·) (List.flatMap_congr fun child inside => ?_)
    exact ih ((mem_extending member).mp inside).1

theorem preorder_eq (order : schema.KeepsSiblings other) : schema.preorder = other.preorder := by
  rw [Schema.preorder_eq names,Schema.preorder_eq (same.names names),forest,forest,
    ← same.topLevel_eq names order,← same.nodes.length_eq]
  refine List.flatMap_congr fun node top => ?_
  exact same.tour_eq names order _ (List.mem_filter.mp top).1

theorem subclasses_eq (order : schema.KeepsSiblings other) (member : node ∈ schema.nodes) :
    schema.hierarchy.subclasses node.name = other.hierarchy.subclasses node.name := by
  have declared : schema.hierarchy.contains node.name = other.hierarchy.contains node.name :=
    same.declares_eq node.name
  have children : schema.hierarchy.schema.extending node.name =
      other.hierarchy.schema.extending node.name := same.extending_eq names order member
  rw [Hierarchy.subclasses,Hierarchy.subclasses,declared,children]

omit names

theorem model_eq (order : schema.KeepsSiblings other) (ok : schema.Acceptable externals) :
    schema.resolvedModel externals = other.resolvedModel externals := by
  have classes : schema.preorder.map schema.record = other.preorder.map other.record := by
    rw [← same.preorder_eq ok.names order]
    refine List.map_congr_left fun node reached => ?_
    have line := chain_of_mem ok.names reached
    rw [same.record_eq ok.names line,same.subclasses_eq ok.names order line.member]
    rfl
  have externals := same.externals_eq ok
  unfold resolvedModel at externals ⊢
  rw [Model.mk.injEq,Hierarchy.layouts,Hierarchy.layouts,List.map_map,List.map_map]
  exact ⟨same.root,externals,classes⟩

end Reorders

/-- A reordered schema is accepted as well and gives the same records but for the order of
subclasses; where siblings keep their order it gives the same model. -/
theorem resolve_reordered (same : schema.Reorders other) :
    ((∃ model, schema.resolve = .ok model) ↔ ∃ model, other.resolve = .ok model) ∧
      ∀ model counterpart, schema.resolve = .ok model → other.resolve = .ok counterpart →
        model.Alike counterpart ∧ (schema.KeepsSiblings other → model = counterpart) := by
  simp only [resolve,resolveWith_eq_ok,← same.externals]
  constructor
  · constructor
    · rintro ⟨_,ok,_⟩
      exact ⟨_,same.acceptable ok,rfl⟩
    · rintro ⟨_,ok,_⟩
      exact ⟨_,same.symm.acceptable ok,rfl⟩
  · rintro _ _ ⟨ok,rfl⟩ ⟨_,rfl⟩
    exact ⟨same.alike ok,fun order => same.model_eq order ok⟩

def shuffled : Schema where
  nodes := [
    { name := "Call"
      superclass := some "Expr"
      fields := [{ name := "callee", kind := .single "Expr" }] },
    { name := "Expr"
      fields := [{ name := "name", kind := .primitive .text }] },
    { name := "Name"
      superclass := some "Expr" }]

def arranged : Schema where
  nodes := [
    { name := "Expr"
      fields := [{ name := "name", kind := .primitive .text }] },
    { name := "Call"
      superclass := some "Expr"
      fields := [{ name := "callee", kind := .single "Expr" }] },
    { name := "Name"
      superclass := some "Expr" }]

theorem resolve_reordered_shuffled :
    shuffled.Reorders arranged ∧ shuffled.KeepsSiblings arranged ∧
      ∃ model, shuffled.resolve = .ok model ∧ arranged.resolve = .ok model := by
  have same : shuffled.Reorders arranged := ⟨rfl,rfl,.swap ..⟩
  have order : shuffled.KeepsSiblings arranged := by decide
  obtain ⟨model,resolved⟩ : ∃ model, shuffled.resolve = .ok model := ⟨_,rfl⟩
  obtain ⟨accepted,equal⟩ := resolve_reordered same
  obtain ⟨other,resolved'⟩ := accepted.mp ⟨model,resolved⟩
  obtain rfl := (equal model other resolved resolved').2 order
  exact ⟨same,order,model,resolved,resolved'⟩

end Schema

end NodeModel
