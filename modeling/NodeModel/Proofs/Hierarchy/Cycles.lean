import Mathlib.Data.List.Cycle
import Mathlib.Data.List.Find
import NodeModel.Proofs.Hierarchy.Structure

/-! The cycles of the superclass relation, and the report of them. A class has one superclass at
most, so from a class without a chain the superclasses lead into a cycle, and cycles that share a
class are the same. -/
namespace NodeModel.Schema

/-- Each class is followed by its superclass, and the last one by the first. -/
structure IsCycle (schema : Schema) (cycle : Cycle NodeDecl) : Prop where
  filled : cycle ≠ Cycle.nil
  distinct : cycle.Nodup
  links : cycle.Chain schema.Extends

def LeadsTo (schema : Schema) (node : NodeDecl) (members : List NodeDecl) : Prop :=
  ∃ member ∈ members, Relation.ReflTransGen schema.Extends node member

variable {schema : Schema}

/-- Superclasses can be followed in one way only, so of two ways up one goes along the other. -/
theorem same_way_up (names : schema.DistinctNames) {node : NodeDecl} {first second : List NodeDecl}
    (left : (node :: first).IsChain schema.Extends)
    (right : (node :: second).IsChain schema.Extends) : first <+: second ∨ second <+: first := by
  induction first generalizing node second with
  | nil => exact .inl List.nil_prefix
  | cons parent first ih =>
    cases second with
    | nil => exact .inr List.nil_prefix
    | cons parent' second =>
      rw [List.isChain_cons_cons] at left right
      obtain rfl := left.1.unique names right.1
      simpa [List.cons_prefix_cons] using ih left.2 right.2

namespace IsCycle

variable {cycle other : Cycle NodeDecl} {node : NodeDecl}

/-- A cycle may be read from any of its members. -/
theorem from_member (cyclic : schema.IsCycle cycle) (member : node ∈ cycle) :
    ∃ rest : List NodeDecl, cycle = ↑(node :: rest) ∧ (node :: rest).Nodup ∧
      (node :: (rest ++ [node])).IsChain schema.Extends := by
  obtain ⟨filled,distinct,links⟩ := cyclic
  induction cycle using Quotient.inductionOn with
  | _ members =>
    obtain ⟨before,after,rfl⟩ := List.append_of_mem (show node ∈ members from member)
    have turned : Cycle.ofList (before ++ node :: after) = ↑(node :: (after ++ before)) :=
      Cycle.coe_eq_coe.mpr List.isRotated_append
    refine ⟨after ++ before,turned,?_,?_⟩
    · exact Cycle.nodup_coe_iff.mp (turned ▸ distinct)
    · exact (Cycle.chain_coe_cons _ _ _).mp (turned ▸ links)

theorem superclass_mem (names : schema.DistinctNames) (cyclic : schema.IsCycle cycle)
    (member : node ∈ cycle) {parent : NodeDecl} (link : schema.Extends node parent) :
    parent ∈ cycle := by
  obtain ⟨rest,rfl,_,links⟩ := cyclic.from_member member
  cases rest with
  | nil =>
    obtain rfl := link.unique names (List.isChain_cons_cons.mp links).1
    exact member
  | cons next rest =>
    obtain rfl := link.unique names (List.isChain_cons_cons.mp links).1
    simp

/-- Whatever lies above a member is on the cycle as well. -/
theorem mem_of_leadsTo (names : schema.DistinctNames) (cyclic : schema.IsCycle cycle)
    (member : node ∈ cycle) {above : NodeDecl}
    (path : Relation.ReflTransGen schema.Extends node above) : above ∈ cycle := by
  induction path with
  | refl => exact member
  | tail _ link ih => exact cyclic.superclass_mem names ih link

theorem ancestor_self (cyclic : schema.IsCycle cycle) (member : node ∈ cycle) :
    schema.Ancestor node node := by
  obtain ⟨rest,_,_,links⟩ := cyclic.from_member member
  have paths := (links.imp fun _ _ => Relation.TransGen.single).pairwise
  exact (List.pairwise_cons.mp paths).1 node (by simp)

/-- Cycles with a common class are the same. -/
theorem eq_of_mem (names : schema.DistinctNames) (cyclic : schema.IsCycle cycle)
    (cyclic' : schema.IsCycle other) (member : node ∈ cycle) (member' : node ∈ other) :
    cycle = other := by
  obtain ⟨rest,rfl,distinct,links⟩ := cyclic.from_member member
  obtain ⟨rest',rfl,distinct',links'⟩ := cyclic'.from_member member'
  -- One way round cannot be longer than the other, as it would pass its own start.
  have around {short long : List NodeDecl} (initial : short ++ [node] <+: long ++ [node])
      (fresh : node ∉ long) : short = long := by
    rcases List.prefix_concat_iff.mp initial with same | inside
    · exact List.append_cancel_right same
    · exact absurd (inside.subset (by simp)) fresh
  rcases same_way_up names links links' with initial | initial
  · rw [around initial (List.nodup_cons.mp distinct').1]
  · rw [around initial (List.nodup_cons.mp distinct).1]

end IsCycle

/-- A class without a chain has a superclass without one. -/
theorem superclass_of_unreached {node : NodeDecl} (member : node ∈ schema.nodes)
    (unreached : ¬ ∃ chain, schema.HasChain node chain) :
    ∃ parent, schema.Extends node parent ∧ ¬ ∃ chain, schema.HasChain parent chain := by
  by_cases alone : ∃ parent, schema.Extends node parent
  · obtain ⟨parent,link⟩ := alone
    exact ⟨parent,link,fun ⟨chain,line⟩ => unreached ⟨_,.extend link line⟩⟩
  · exact absurd ⟨_,.top member (not_exists.mp alone)⟩ unreached

/-- Where names are distinct, a list is cut at a class by looking for its name. -/
theorem cut_at_name (names : schema.DistinctNames) {node : NodeDecl} {before after : List NodeDecl}
    (declared : before ++ node :: after ⊆ schema.nodes) (fresh : node ∉ before) :
    (before ++ node :: after).takeWhile (·.name != node.name) = before ∧
      (before ++ node :: after).dropWhile (·.name != node.name) = node :: after := by
  have apart : ∀ other ∈ before, (other.name != node.name) = true := by
    intro other inside
    refine bne_iff_ne.mpr fun same => fresh ?_
    have equal := eq_of_name names (declared (List.mem_append_left _ inside))
      (declared (by simp)) same
    exact equal ▸ inside
  rw [List.takeWhile_append_of_pos apart,List.dropWhile_append_of_pos apart]
  simp

/-- The part of a way up between two visits to a class is a cycle. -/
theorem isCycle_of_return {node : NodeDecl} {later earlier : List NodeDecl}
    (walked : (node :: (later ++ node :: earlier)).IsChain
      fun upper lower => schema.Extends lower upper)
    (distinct : (later ++ node :: earlier).Nodup) :
    schema.IsCycle ↑(node :: later.reverse) where
  filled := by simp
  distinct := by
    rw [Cycle.nodup_coe_iff,← List.nodup_reverse]
    simpa using (List.nodup_append'.mp ((List.append_cons later node earlier) ▸ distinct)).1
  links := by
    rw [Cycle.chain_coe_cons]
    have round : (node :: (later ++ [node])).IsChain
        fun upper lower => schema.Extends lower upper :=
      walked.infix ⟨[],earlier,by simp⟩
    have turned := List.isChain_reverse.mpr round
    simpa using turned

/-- The climb from a class without a chain ends, and it ends on a cycle above the class. -/
theorem climb_eq (names : schema.DistinctNames) (fuel : Nat) {path : List NodeDecl}
    {node : NodeDecl}
    (walked : (node :: path).IsChain fun upper lower => schema.Extends lower upper)
    (declared : node :: path ⊆ schema.nodes) (distinct : path.Nodup)
    (unreached : ¬ ∃ chain, schema.HasChain node chain)
    (enough : schema.nodes.length < path.length + fuel) :
    ∃ members, schema.climb fuel path node = some members ∧ schema.IsCycle ↑members ∧
      schema.LeadsTo node members := by
  induction fuel generalizing path node with
  | zero =>
    have inside := (List.cons_subset.mp declared).2
    have bound := (List.subperm_of_subset distinct inside).length_le
    omega
  | succ fuel ih =>
    obtain ⟨member,inside⟩ := List.cons_subset.mp declared
    rw [climb]
    by_cases passed : node ∈ path
    · have again : path.any (·.name == node.name) = true :=
        List.any_eq_true.mpr ⟨node,passed,by simp⟩
      obtain ⟨later,earlier,rfl⟩ := List.append_of_mem passed
      have fresh : node ∉ later := fun twice =>
        List.disjoint_of_nodup_append distinct twice List.mem_cons_self
      rw [if_pos again,(cut_at_name names inside fresh).1]
      exact ⟨_,rfl,isCycle_of_return walked distinct,node,List.mem_cons_self,.refl⟩
    · have fresh : ¬ path.any (·.name == node.name) = true := by
        intro again
        obtain ⟨other,there,same⟩ := List.any_eq_true.mp again
        obtain rfl := eq_of_name names (inside there) member (by simpa using same)
        exact passed there
      obtain ⟨parent,link,stuck⟩ := superclass_of_unreached member unreached
      have next := (parent?_eq_some names member).mpr link
      rw [if_neg fresh,next,Option.bind_some]
      obtain ⟨members,found,cyclic,top,listed,way⟩ := ih
        (List.isChain_cons_cons.mpr ⟨link,walked⟩) (List.cons_subset.mpr ⟨link.2.1,declared⟩)
        (List.nodup_cons.mpr ⟨passed,distinct⟩) stuck (by simp only [List.length_cons]; omega)
      exact ⟨members,found,cyclic,top,listed,.head link way⟩

theorem name_mem_iff (names : schema.DistinctNames) {node : NodeDecl} {members : List NodeDecl}
    (member : node ∈ schema.nodes) (declared : members ⊆ schema.nodes) :
    node.name ∈ members.map (·.name) ↔ node ∈ members := by
  refine ⟨fun named => ?_,List.mem_map_of_mem⟩
  obtain ⟨other,inside,same⟩ := List.mem_map.mp named
  exact eq_of_name names (declared inside) member same ▸ inside

/-- Turning keeps the cycle and brings its first-declared member to the front. -/
theorem turn_eq (names : schema.DistinctNames) {members : List NodeDecl} (filled : members ≠ [])
    (distinct : members.Nodup) (declared : members ⊆ schema.nodes) :
    ∃ turned : List NodeDecl, schema.turn (members.map (·.name)) = turned.map (·.name) ∧
      (turned : Cycle NodeDecl) = members ∧
      schema.nodes.find? (· ∈ turned) = turned.head? := by
  have search : (schema.nodes.find? fun node => (members.map (·.name)).contains node.name) =
      schema.nodes.find? (· ∈ members) := by
    refine List.find?_congr fun node member => ?_
    rw [Bool.eq_iff_iff,List.contains_iff_mem,decide_eq_true_iff,name_mem_iff names member declared]
  obtain ⟨some,inside⟩ := List.exists_mem_of_ne_nil _ filled
  obtain ⟨first,found⟩ := Option.isSome_iff_exists.mp (List.find?_isSome.mpr
    ⟨some,declared inside,by simpa using inside⟩ : (schema.nodes.find? (· ∈ members)).isSome = true)
  have leading : first ∈ members := by simpa using List.find?_some found
  obtain ⟨before,after,rfl⟩ := List.append_of_mem leading
  have fresh : first ∉ before := fun twice =>
    List.disjoint_of_nodup_append distinct twice List.mem_cons_self
  obtain ⟨start,rest⟩ := cut_at_name names declared fresh
  have rotated : first :: after ++ before ~r before ++ first :: after := List.isRotated_append
  refine ⟨first :: after ++ before,?_,Cycle.coe_eq_coe.mpr rotated,?_⟩
  · rw [turn,search,found]
    simp only [List.takeWhile_map,List.dropWhile_map,Function.comp_def]
    rw [start,rest,List.map_append]
  · simp only [rotated.mem_iff]
    exact found

/-- From a class without a chain the search finds a cycle above it, read from the member that is
declared first. -/
theorem cycleAbove?_eq (names : schema.DistinctNames) {node : NodeDecl}
    (member : node ∈ schema.nodes) (unreached : ¬ ∃ chain, schema.HasChain node chain) :
    ∃ members : List NodeDecl, schema.cycleAbove? node = some (members.map (·.name)) ∧
      schema.IsCycle ↑members ∧ schema.LeadsTo node members ∧
      schema.nodes.find? (· ∈ members) = members.head? := by
  obtain ⟨members,found,cyclic,above⟩ := climb_eq names (schema.nodes.length + 1)
    (List.isChain_singleton node) (by simpa using member) List.nodup_nil unreached (by simp)
  have declared : members ⊆ schema.nodes := fun other inside =>
    (cyclic.ancestor_self (Cycle.mem_coe_iff.mpr inside)).declared.1
  obtain ⟨turned,text,same,leads⟩ := turn_eq names
    (mt (Cycle.coe_eq_nil members).mpr cyclic.filled)
    (Cycle.nodup_coe_iff.mp cyclic.distinct) declared
  refine ⟨turned,?_,same ▸ cyclic,?_,leads⟩
  · rw [cycleAbove?,found,Option.map_some,text]
  · obtain ⟨top,listed,way⟩ := above
    exact ⟨top,(Cycle.coe_eq_coe.mp same).mem_iff.mpr listed,way⟩

/-- Cycles read from their first-declared members, each once. -/
structure CycleReport (schema : Schema) (reports : List (List NodeDecl)) : Prop where
  cycles : ∀ members ∈ reports, schema.IsCycle ↑members
  leading : ∀ members ∈ reports, schema.nodes.find? (· ∈ members) = members.head?
  once : (reports.map Cycle.ofList).Nodup

theorem CycleReport.concat {reports : List (List NodeDecl)} (done : schema.CycleReport reports)
    {members : List NodeDecl} (cyclic : schema.IsCycle ↑members)
    (leads : schema.nodes.find? (· ∈ members) = members.head?)
    (fresh : ∀ other ∈ reports, (other : Cycle NodeDecl) ≠ members) :
    schema.CycleReport (reports ++ [members]) where
  cycles := List.forall_mem_append.mpr ⟨done.cycles,by simpa using cyclic⟩
  leading := List.forall_mem_append.mpr ⟨done.leading,by simpa using leads⟩
  once := by
    rw [List.map_append,List.map_singleton,← List.concat_eq_append]
    refine done.once.concat fun again => ?_
    obtain ⟨other,inside,same⟩ := List.mem_map.mp again
    exact fresh other inside same

/-- What is reported after some classes, and that the cycles above all of them are reported. -/
theorem cycles_eq (names : schema.DistinctNames) (rest : List NodeDecl)
    (unreached : ∀ node ∈ rest, node ∈ schema.nodes ∧ ¬ ∃ chain, schema.HasChain node chain)
    {reports : List (List NodeDecl)} (done : schema.CycleReport reports) :
    ∃ found : List (List NodeDecl),
      schema.cycles (reports.flatten.map (·.name)) rest = found.map (List.map (·.name)) ∧
      schema.CycleReport (reports ++ found) ∧
      ∀ node ∈ rest, ∃ members ∈ reports ++ found, schema.LeadsTo node members := by
  induction rest generalizing reports with
  | nil => exact ⟨[],rfl,by simpa using done,by simp⟩
  | cons node rest ih =>
    obtain ⟨here,later⟩ := List.forall_mem_cons.mp unreached
    obtain ⟨members,given,cyclic,⟨top,listed,way⟩,leads⟩ := cycleAbove?_eq names here.1 here.2
    rw [cycles,given]
    dsimp only
    split
    next known =>
      -- A common class makes the cycle one that is reported already.
      obtain ⟨found,text,reported,covered⟩ := ih later done
      refine ⟨found,text,reported,List.forall_mem_cons.mpr ⟨?_,covered⟩⟩
      obtain ⟨name,inside,again⟩ := List.any_eq_true.mp known
      obtain ⟨shared,inMembers,rfl⟩ := List.mem_map.mp inside
      obtain ⟨other,inOther,same⟩ := List.mem_map.mp (List.contains_iff_mem.mp again)
      obtain ⟨earlier,inReports,inEarlier⟩ := List.mem_flatten.mp inOther
      have cyclic' := done.cycles earlier inReports
      obtain rfl : other = shared := eq_of_name names
        (cyclic'.ancestor_self inEarlier).declared.1
        (cyclic.ancestor_self inMembers).declared.1 same
      have equal := Cycle.coe_eq_coe.mp (cyclic.eq_of_mem names cyclic' inMembers inEarlier)
      exact ⟨earlier,List.mem_append_left _ inReports,top,equal.mem_iff.mp listed,way⟩
    next new =>
      have fresh : ∀ other ∈ reports, (other : Cycle NodeDecl) ≠ members := by
        intro other inReports same
        have inside := (Cycle.coe_eq_coe.mp same).mem_iff.mpr listed
        refine new (List.any_eq_true.mpr ⟨top.name,List.mem_map_of_mem listed,?_⟩)
        exact List.contains_iff_mem.mpr
          (List.mem_map_of_mem (List.mem_flatten.mpr ⟨other,inReports,inside⟩))
      obtain ⟨found,text,reported,covered⟩ := ih later (done.concat cyclic leads fresh)
      rw [List.append_assoc] at reported covered
      refine ⟨members :: found,?_,reported,List.forall_mem_cons.mpr ⟨?_,covered⟩⟩
      · simpa using text
      · exact ⟨members,by simp,top,listed,way⟩

def unreached (schema : Schema) : List NodeDecl :=
  schema.nodes.filter fun node => !schema.preorder.any (·.name == node.name)

theorem mem_unreached (names : schema.DistinctNames) {node : NodeDecl} :
    node ∈ schema.unreached ↔ node ∈ schema.nodes ∧ ¬ ∃ chain, schema.HasChain node chain := by
  rw [unreached,List.mem_filter,← mem_preorder names]
  refine and_congr_right fun member => ?_
  have declared : schema.preorder ⊆ schema.nodes := by
    rw [preorder_eq names]
    exact forest_subset names
  simp [← name_mem_iff names member declared]

/-- Where the other stages find nothing, a build fails exactly with the cycles. -/
theorem build_eq_error {defects : List Defect} (names : schema.DistinctNames)
    (superclasses : schema.SuperclassesKnown)
    (roots : schema.root = none → (schema.nodes.filter (·.superclass.isNone)).length ≤ 1) :
    Hierarchy.build schema = .error defects ↔
      ¬ schema.Acyclic ∧ defects = (schema.cycles [] schema.unreached).map .cycle := by
  have distinct : duplicates [] schema.nodes = [] := by
    simpa [duplicates_nil_iff,DistinctNames] using names
  have dangling := dangling_nil_iff.mpr superclasses
  have single := (extraRoots_nil_iff superclasses).mpr roots
  rw [← preorder_complete_iff names,Nat.not_le,Hierarchy.build]
  simp only [distinct,dangling,single,List.isEmpty_nil,Bool.not_true,bind,Except.bind,throw,
    throwThe,MonadExceptOf.throw,pure,Except.pure,Bool.false_eq_true,if_false]
  by_cases short : schema.preorder.length < schema.nodes.length
  · simp only [short,if_true,true_and,Except.error.injEq]
    exact eq_comm
  · simp [short]

/-- A class that is its own ancestor is above whatever is above it. -/
theorem way_back (names : schema.DistinctNames) {node above : NodeDecl}
    (round : schema.Ancestor node node) (way : Relation.ReflTransGen schema.Extends node above) :
    Relation.ReflTransGen schema.Extends above node := by
  induction way with
  | refl => exact .refl
  | tail _ link ih =>
    -- Below the class itself its own round goes on, as there is one superclass to go to.
    rcases Relation.ReflTransGen.cases_head ih with rfl | ⟨next,link',back⟩
    · obtain ⟨next,link',back⟩ := Relation.TransGen.head'_iff.mp round
      exact link.unique names link' ▸ back
    · exact link.unique names link' ▸ back

theorem IsCycle.exists_mem {cycle : Cycle NodeDecl} (cyclic : schema.IsCycle cycle) :
    ∃ node, node ∈ cycle := by
  have filled := cyclic.filled
  induction cycle using Cycle.induction_on with
  | nil => exact absurd rfl filled
  | cons node _ _ => exact ⟨node,by simp⟩

/-- The report is complete: every class that is its own ancestor is in it. -/
theorem exists_reports (names : schema.DistinctNames) :
    ∃ reports : List (List NodeDecl),
      schema.cycles [] schema.unreached = reports.map (List.map (·.name)) ∧
      schema.CycleReport reports ∧
      ∀ node, (∃ members ∈ reports, node ∈ members) ↔ schema.Ancestor node node := by
  have start : schema.CycleReport [] := ⟨by simp,by simp,by simp⟩
  obtain ⟨reports,text,reported,covered⟩ :=
    cycles_eq names schema.unreached (fun node => (mem_unreached names).mp) start
  refine ⟨reports,text,reported,fun node => ⟨?_,fun round => ?_⟩⟩
  · rintro ⟨members,inside,member⟩
    exact (reported.cycles members inside).ancestor_self member
  · have stuck : ¬ ∃ chain, schema.HasChain node chain := fun ⟨_,line⟩ =>
      not_ancestor_self names line round
    obtain ⟨members,inside,top,listed,way⟩ :=
      covered node ((mem_unreached names).mpr ⟨round.declared.1,stuck⟩)
    exact ⟨members,inside,(reported.cycles members inside).mem_of_leadsTo names
      (Cycle.mem_coe_iff.mpr listed) (way_back names round way)⟩

/-- Where nothing else is wrong with the class graph, a build fails exactly if there is a cycle. It
reports every cycle once, from the member that is declared first, each class before its superclass;
classes that are only below a cycle do not appear. -/
theorem build_reports_cycles (names : schema.DistinctNames)
    (superclasses : schema.SuperclassesKnown)
    (roots : schema.root = none → (schema.nodes.filter (·.superclass.isNone)).length ≤ 1) :
    ((∃ defects, Hierarchy.build schema = .error defects) ↔ ∃ cycle, schema.IsCycle cycle) ∧
    ∀ defects, Hierarchy.build schema = .error defects → defects ≠ [] ∧
      ∃ reports : List (List NodeDecl),
        defects = reports.map (fun members => .cycle (members.map (·.name))) ∧
        (reports.map Cycle.ofList).Nodup ∧
        (∀ cycle, cycle ∈ reports.map Cycle.ofList ↔ schema.IsCycle cycle) ∧
        (∀ members ∈ reports, schema.nodes.find? (· ∈ members) = members.head?) ∧
        ∀ node, (∃ members ∈ reports, node ∈ members) ↔ schema.Ancestor node node := by
  obtain ⟨reports,text,reported,onCycle⟩ := exists_reports names
  have listed (cycle : Cycle NodeDecl) :
      cycle ∈ reports.map Cycle.ofList ↔ schema.IsCycle cycle := by
    constructor
    · intro inside
      obtain ⟨members,report,rfl⟩ := List.mem_map.mp inside
      exact reported.cycles members report
    · intro cyclic
      obtain ⟨node,member⟩ := cyclic.exists_mem
      obtain ⟨members,report,inside⟩ := (onCycle node).mpr (cyclic.ancestor_self member)
      rw [cyclic.eq_of_mem names (reported.cycles members report) member inside]
      exact List.mem_map_of_mem report
  have broken : ¬ schema.Acyclic ↔ ∃ cycle, schema.IsCycle cycle := by
    constructor
    · intro cyclic
      obtain ⟨node,round⟩ := not_forall_not.mp cyclic
      obtain ⟨members,report,_⟩ := (onCycle node).mpr round
      exact ⟨members,reported.cycles members report⟩
    · rintro ⟨cycle,cyclic⟩ acyclic
      obtain ⟨node,member⟩ := cyclic.exists_mem
      exact acyclic node (cyclic.ancestor_self member)
  simp only [build_eq_error names superclasses roots,exists_and_left,exists_eq,and_true]
  refine ⟨broken,?_⟩
  rintro defects ⟨cyclic,rfl⟩
  rw [text,List.map_map]
  obtain ⟨cycle,present⟩ := broken.mp cyclic
  refine ⟨?_,reports,rfl,reported.once,listed,reported.leading,onCycle⟩
  have some := List.ne_nil_of_mem ((listed cycle).mpr present)
  simpa using some

/-- A cycle of three with a class below it, and a class that extends itself. -/
def tangled : Schema where
  nodes := [
    { name := "Node" },
    { name := "A", superclass := some "C" },
    { name := "B", superclass := some "A" },
    { name := "C", superclass := some "B" },
    { name := "D", superclass := some "B" },
    { name := "E", superclass := some "E" }]

/-- The class below the cycle of three is not on it. -/
theorem build_reports_cycles_tangled :
    Hierarchy.build tangled = .error [.cycle ["A","C","B"],.cycle ["E"]] ∧
      (∃ cycle, tangled.IsCycle cycle) ∧
      ∀ node, node.name = "D" → ¬ tangled.Ancestor node node := by
  have built : Hierarchy.build tangled = .error [.cycle ["A","C","B"],.cycle ["E"]] := rfl
  have names : (tangled.nodes.map (·.name)).Nodup := by decide
  have superclasses : tangled.SuperclassesKnown := dangling_nil_iff.mp (by decide)
  obtain ⟨broken,report⟩ := build_reports_cycles names superclasses (by decide)
  refine ⟨built,broken.mp ⟨_,built⟩,fun node named round => ?_⟩
  obtain ⟨_,reports,text,_,_,_,onCycle⟩ := report _ built
  obtain ⟨members,inside,member⟩ := (onCycle node).mpr round
  have listed : Defect.cycle (members.map (·.name)) ∈
      [Defect.cycle ["A","C","B"],Defect.cycle ["E"]] := by
    rw [text]
    exact List.mem_map_of_mem inside
  have inNames : "D" ∈ members.map (·.name) := named ▸ List.mem_map_of_mem member
  simp only [List.mem_cons,List.not_mem_nil,or_false,Defect.cycle.injEq] at listed
  rcases listed with same | same <;> simp [same] at inNames

end NodeModel.Schema
