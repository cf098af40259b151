import NodeModel.Proofs.Arena.Frame
import NodeModel.Proofs.Arena.Ownership

/-! What a clone adds: a tree of new nodes, as many as the source has below it when every owned
edge counts, with no owned edge back to what was there. Either side can be assigned to without the
other noticing. -/
namespace NodeModel.Arena

variable {model : Model} {held : String → ExternalRef → Prop} {arena : Arena}
  {copies : ExternalRef → ExternalRef → Prop} {before after : Array Node} {ids clones : List NodeId}

mutual

/-- The number of nodes in an unfolding; a node that is owned twice counts twice. -/
def Unfolding.size : Unfolding → Nat
  | .raw _ => 0
  | .child below => below.size
  | .list items => Unfolding.sizes items
  | .node _ slots => 1 + Unfolding.sizes slots

def Unfolding.sizes : List Unfolding → Nat
  | [] => 0
  | first :: rest => first.size + Unfolding.sizes rest

end

theorem Unfolding.sizes_append (left right : List Unfolding) :
    Unfolding.sizes (left ++ right) = Unfolding.sizes left + Unfolding.sizes right := by
  induction left with
  | nil => simp [Unfolding.sizes]
  | cons first rest ih => rw [List.cons_append,Unfolding.sizes,ih,Unfolding.sizes,Nat.add_assoc]

theorem Unfolding.sizes_flatMap {α : Type} {whole : α → Unfolding} {parts : α → List Unfolding}
    {items : List α} (each : ∀ item ∈ items, (whole item).size = Unfolding.sizes (parts item)) :
    Unfolding.sizes (items.map whole) = Unfolding.sizes (items.flatMap parts) := by
  induction items with
  | nil => rfl
  | cons item items ih =>
    have rest := ih fun other member => each other (List.mem_cons_of_mem _ member)
    rw [List.map_cons,Unfolding.sizes,List.flatMap_cons,Unfolding.sizes_append,
      each item List.mem_cons_self,rest]

theorem unfoldSlot_size {below : NodeId → Unfolding} {field : Model.Field} {slot : Option Value}
    (shape : ∀ value, slot = some value → value.ShapedAs held field.kind) :
    (unfoldSlot below field.step slot).size =
      Unfolding.sizes ((ownedIds field.step slot).map below) := by
  cases slot with
  | none =>
    cases step : field.step <;> simp [unfoldSlot,ownedIds,Unfolding.size,Unfolding.sizes]
  | some value =>
    have shaped := shape value rfl
    cases step : field.step with
    | cloneChild =>
      obtain ⟨target,kind⟩ := Model.Field.kind_of_cloneChild step
      rw [kind] at shaped
      cases value with
      | node child =>
        simp [unfoldSlot,ownedIds,Model.CloneStep.owns,Value.nodeIds,Unfolding.size,
          Unfolding.sizes]
      | _ => exact shaped.elim
    | cloneList =>
      obtain ⟨target,kind⟩ := Model.Field.kind_of_cloneList step
      rw [kind] at shaped
      cases value with
      | list children =>
        simp [unfoldSlot,ownedIds,Model.CloneStep.owns,Value.nodeIds,Unfolding.size]
      | _ => exact shaped.elim
    | _ => simp [unfoldSlot,ownedIds,Model.CloneStep.owns,Unfolding.size,Unfolding.sizes]

/-- A node counts itself and what its owned children count. -/
theorem Node.Valid.unfolding_size {nodes : Array Node} {id : NodeId} {node : Node}
    (valid : node.Valid model held nodes id) (found : nodes[id]? = some node) :
    (unfolding nodes id).size = 1 + Unfolding.sizes (node.owned.map (unfolding nodes)) := by
  rw [valid.unfolding_eq found,Unfolding.size,Node.owned,ownedBy,List.map_flatMap]
  refine congrArg (1 + ·) (Unfolding.sizes_flatMap fun entry member => ?_)
  obtain ⟨position,atEntry⟩ := List.getElem?_of_mem member
  obtain ⟨atField,atSlot⟩ := List.getElem?_zip_eq_some.mp atEntry
  exact unfoldSlot_size fun value present =>
    (valid.fits position entry.1 value atField (present ▸ atSlot)).shape

/-- Cloning adds as many nodes as the sources unfold to. -/
theorem Clones.size_eq {base : Array Node} (valid : AllValid model held base)
    (run : Clones copies before ids after clones) (kept : Keeps base before)
    (existing : ∀ id ∈ ids, id < base.size) :
    after.size = before.size + Unfolding.sizes (ids.map (unfolding base)) := by
  induction run with
  | done => rfl
  | @next before inner after id source copy rest clones found children mirrors later below ahead =>
    obtain ⟨source',atBase⟩ := found_of_lt_size (existing id List.mem_cons_self)
    cases Option.some.inj ((kept id source' atBase).symm.trans found)
    have node := valid id source atBase
    have first := below kept fun child member => (node.owned_lt member).2
    have second := ahead ((kept.trans children.keeps).trans (.push inner copy))
      fun other member => existing other (List.mem_cons_of_mem _ member)
    rw [Array.size_push] at second
    rw [List.map_cons,Unfolding.sizes,node.unfolding_size atBase]
    omega

def ownedEdges (arena : Arena) (id : NodeId) : List NodeId :=
  match arena.classOf id with
  | .error _ => []
  | .ok cls => cls.cloneRules.flatMap fun rule =>
    match rule.step, arena.get id rule.field with
    | .cloneChild, .ok (some value) | .cloneList, .ok (some value) => value.nodeIds
    | _, _ => []

theorem ownedEdges_eq (consistent : model.Consistent) (valid : AllValid model held arena.nodes)
    {id : NodeId} {node : Node} (found : arena.nodes[id]? = some node) :
    arena.ownedEdges id = node.owned := by
  have shape := valid id node found
  have fields_eq : (node.cls.fields.zip node.slots).map (·.1) = node.cls.fields :=
    List.map_fst_zip (Nat.le_of_eq shape.slots.symm)
  have known : arena.classOf id = .ok node.cls := by
    rw [classOf,node_eq_ok_iff.mpr found]
    rfl
  rw [ownedEdges,known]
  simp only [(consistent.classes node.cls shape.cls).cloneRules]
  rw [← fields_eq,List.map_map,List.flatMap_map,Node.owned,ownedBy]
  refine List.flatMap_congr fun entry member => ?_
  obtain ⟨position,atEntry⟩ := List.getElem?_of_mem member
  obtain ⟨atField,atSlot⟩ := List.getElem?_zip_eq_some.mp atEntry
  have contents : arena.get id entry.1.name = .ok entry.2 := by
    rw [get_eq_ok consistent valid found atField,Node.slot,atSlot]
    rfl
  simp only [Function.comp_apply,contents]
  cases entry.1.step <;> cases entry.2 <;> rfl

theorem mem_ownedEdges (consistent : model.Consistent) (valid : AllValid model held arena.nodes)
    {owner child : NodeId} (inArena : owner < arena.size) :
    child ∈ arena.ownedEdges owner ↔ arena.Owns owner child := by
  obtain ⟨node,found⟩ := found_of_lt_size inArena
  rw [ownedEdges_eq consistent valid found,owns_iff consistent valid found]

theorem Keeps.size_le (kept : Keeps before after) : before.size ≤ after.size := by
  by_contra fewer
  obtain ⟨node,found⟩ := found_of_lt_size (Nat.not_le.mp fewer)
  exact Nat.lt_irrefl _ (lt_size_of_found (kept _ node found))

def edgesFrom (nodes : Array Node) (first count : Nat) : List NodeId :=
  (List.range' first count).flatMap fun id => (nodes[id]?.map Node.owned).getD []

theorem edgesFrom_append (nodes : Array Node) (first count more : Nat) :
    edgesFrom nodes first (count + more) =
      edgesFrom nodes first count ++ edgesFrom nodes (first + count) more := by
  rw [edgesFrom,← List.range'_append_1,List.flatMap_append,edgesFrom,edgesFrom]

theorem edgesFrom_one {nodes : Array Node} {id : NodeId} {node : Node}
    (found : nodes[id]? = some node) : edgesFrom nodes id 1 = node.owned := by
  simp [edgesFrom,found]

theorem edgesFrom_kept (kept : Keeps before after) {first count : Nat}
    (inside : first + count ≤ before.size) :
    edgesFrom after first count = edgesFrom before first count := by
  refine List.flatMap_congr fun id member => ?_
  obtain ⟨_,bound⟩ := List.mem_range'_1.mp member
  obtain ⟨node,found⟩ := found_of_lt_size (Nat.lt_of_lt_of_le bound inside)
  rw [found,kept id node found]

/-- Every new node is the clone of a source or an owned child of one other new node: the clones and
the owned edges of the new nodes are together the new nodes, each once. -/
theorem Clones.edges_perm (run : Clones copies before ids after clones) :
    (edgesFrom after before.size (after.size - before.size) ++ clones).Perm
      (List.range' before.size (after.size - before.size)) := by
  induction run with
  | done => simp [edgesFrom]
  | @next before inner after id source copy rest clones found children mirrors later below ahead =>
    have kept : Keeps inner after := (Keeps.push inner copy).trans later.keeps
    have atCopy : after[inner.size]? = some copy := later.keeps _ _ Array.getElem?_push_size
    have less := children.keeps.size_le
    have more := later.keeps.size_le
    rw [Array.size_push] at more ahead
    obtain ⟨first,first_eq⟩ := Nat.exists_eq_add_of_le less
    obtain ⟨second,second_eq⟩ := Nat.exists_eq_add_of_le more
    have total : after.size - before.size = first + (1 + second) := by omega
    have inner_eq : before.size + first = inner.size := first_eq.symm
    have below' : (edgesFrom after before.size first ++ copy.owned).Perm
        (List.range' before.size first) := by
      rw [edgesFrom_kept kept (Nat.le_of_eq inner_eq)]
      simpa [first_eq] using below
    have ahead' : (edgesFrom after (inner.size + 1) second ++ clones).Perm
        (List.range' (inner.size + 1) second) := by
      simpa [second_eq] using ahead
    rw [total,edgesFrom_append,edgesFrom_append,inner_eq,edgesFrom_one atCopy,
      ← List.range'_append_1,inner_eq,← List.range'_append_1,List.append_assoc,List.append_assoc]
    -- The new node itself moves in front of the edges of the nodes after it.
    have moved : (edgesFrom after (inner.size + 1) second ++ inner.size :: clones).Perm
        (inner.size :: (edgesFrom after (inner.size + 1) second ++ clones)) := List.perm_middle
    refine ((moved.append_left _).append_left _).trans ?_
    simpa using below'.append (ahead'.cons inner.size)

/-- What is owned below a node depends on no more than the nodes on the way. -/
theorem owns_congr {other : Arena} {owner child : NodeId}
    (same : other.nodes[owner]? = arena.nodes[owner]?) :
    other.Owns owner child ↔ arena.Owns owner child := by
  simp only [Owns,Arena.get,Arena.node,same]

/-- From `id` down along owned children, nodes and edges are the same in both arenas. -/
def SameBelow (arena other : Arena) (id : NodeId) : Prop :=
  (∀ below, Relation.ReflTransGen arena.Owns id below →
    other.nodes[below]? = arena.nodes[below]?) ∧
  ∀ below, Relation.ReflTransGen other.Owns id below ↔ Relation.ReflTransGen arena.Owns id below

theorem sameBelow {other : Arena} {id : NodeId}
    (nodes : ∀ below, Relation.ReflTransGen arena.Owns id below →
      other.nodes[below]? = arena.nodes[below]?) : SameBelow arena other id := by
  refine ⟨nodes,fun below => ⟨fun path => ?_,fun path => ?_⟩⟩
  · induction path with
    | refl => exact .refl
    | tail _ owns ih => exact ih.tail ((owns_congr (nodes _ ih)).mp owns)
  · induction path with
    | refl => exact .refl
    | tail before owns ih => exact ih.tail ((owns_congr (nodes _ before)).mpr owns)

theorem owned_le (consistent : model.Consistent) (valid : AllValid model held arena.nodes)
    {id below : NodeId} (path : Relation.ReflTransGen arena.Owns id below) : below ≤ id := by
  induction path with
  | refl => exact Nat.le_refl _
  | tail _ owns ih => exact Nat.le_trans (Nat.le_of_lt (owns.lt consistent valid)) ih

/-- The owned edges of the nodes that `grown` has beyond those of `arena`. -/
def newEdges (arena grown : Arena) : List NodeId :=
  (List.range' arena.size (grown.size - arena.size)).flatMap grown.ownedEdges

/-- The nodes that `grown` has beyond those of `arena` form a tree under `root`, which stands for
what is below `id`. -/
structure FreshTree (arena grown : Arena) (id root : NodeId) : Prop where
  kept : ∀ old < arena.size, grown.nodes[old]? = arena.nodes[old]?
  last : grown.size = root + 1
  size : grown.size = arena.size + (unfolding arena.nodes id).size
  /-- Each new node but the root has exactly one owned edge to it. -/
  once : ∀ new, arena.size ≤ new → new < root → (newEdges arena grown).count new = 1
  /-- No owned edge of a new node leads to an old node, and none to the root. -/
  within : ∀ child ∈ newEdges arena grown, arena.size ≤ child ∧ child < root
  below : ∀ other, Relation.ReflTransGen grown.Owns root other ↔
    arena.size ≤ other ∧ other ≤ root

theorem mem_between {first last id : Nat} :
    id ∈ List.range' first (last - first) ↔ first ≤ id ∧ id < last := by
  rw [List.mem_range'_1]
  omega

theorem newEdges_eq {grown : Arena} (consistent : model.Consistent)
    (valid : AllValid model held grown.nodes) :
    newEdges arena grown = edgesFrom grown.nodes arena.size (grown.size - arena.size) := by
  refine List.flatMap_congr fun id member => ?_
  obtain ⟨node,found⟩ := found_of_lt_size (mem_between.mp member).2
  rw [ownedEdges_eq consistent valid found,found]
  rfl

theorem mem_newEdges {grown : Arena} (consistent : model.Consistent)
    (valid : AllValid model held grown.nodes) {child : NodeId} :
    child ∈ newEdges arena grown ↔ ∃ owner, arena.size ≤ owner ∧ grown.Owns owner child := by
  rw [newEdges,List.mem_flatMap]
  constructor
  · rintro ⟨owner,member,edge⟩
    obtain ⟨least,inArena⟩ := mem_between.mp member
    exact ⟨owner,least,(mem_ownedEdges consistent valid inArena).mp edge⟩
  · rintro ⟨owner,least,owns⟩
    obtain ⟨node,found,_⟩ := id owns
    have inArena : owner < grown.size := lt_size_of_found found
    refine ⟨owner,mem_between.mpr ⟨least,inArena⟩,?_⟩
    exact (mem_ownedEdges consistent valid inArena).mpr owns

/-- If each new node but the last is owned by a new node, all of them are below the last. -/
theorem below_root {grown : Arena} {root : NodeId} (consistent : model.Consistent)
    (valid : AllValid model held grown.nodes)
    (owners : ∀ new, arena.size ≤ new → new < root →
      ∃ owner, arena.size ≤ owner ∧ owner ≤ root ∧ grown.Owns owner new)
    {new : NodeId} (fresh : arena.size ≤ new) (inside : new ≤ root) :
    Relation.ReflTransGen grown.Owns root new := by
  -- Owners are younger than what they own, so the induction is on the distance from the root.
  induction distance_eq : root - new using Nat.strong_induction_on generalizing new with
  | _ distance ih =>
    rcases Nat.eq_or_lt_of_le inside with rfl | smaller
    · exact .refl
    · obtain ⟨owner,least,most,owns⟩ := owners new fresh smaller
      have younger := owns.lt consistent valid
      have nearer : root - owner < distance := distance_eq ▸ Nat.sub_lt_sub_left smaller younger
      exact (ih (root - owner) nearer least most rfl).tail owns

theorem Clones.freshTree {grown : Arena} {id root : NodeId} (consistent : model.Consistent)
    (valid : AllValid model held arena.nodes) (valid' : AllValid model held grown.nodes)
    (inArena : id < arena.size) (run : Clones copies arena.nodes [id] grown.nodes [root]) :
    FreshTree arena grown id root := by
  have last : grown.size = root + 1 := by
    generalize nodes_eq : grown.nodes = nodes at run
    cases run with
    | next found children mirrors later =>
      cases later
      simp [size,nodes_eq]
  have size_eq : grown.size = arena.size + (unfolding arena.nodes id).size := by
    simpa [size,Unfolding.sizes] using
      run.size_eq valid (.refl _) (List.forall_mem_singleton.mpr inArena)
  have perm : (newEdges arena grown ++ [root]).Perm
      (List.range' arena.size (grown.size - arena.size)) := by
    rw [newEdges_eq consistent valid']
    exact run.edges_perm
  have fresh : arena.size ≤ root :=
    (mem_between.mp (perm.mem_iff.mp (List.mem_append_right _ List.mem_cons_self))).1
  have distinct : (newEdges arena grown ++ [root]).Nodup := perm.nodup_iff.mpr List.nodup_range'
  have within : ∀ child ∈ newEdges arena grown, arena.size ≤ child ∧ child < root := by
    intro child member
    have apart : child ≠ root := by
      rintro rfl
      exact (List.disjoint_of_nodup_append distinct) member List.mem_cons_self
    obtain ⟨least,most⟩ := mem_between.mp (perm.mem_iff.mp (List.mem_append_left _ member))
    rw [last] at most
    exact ⟨least,Nat.lt_of_le_of_ne (Nat.le_of_lt_succ most) apart⟩
  have once : ∀ new, arena.size ≤ new → new < root → new ∈ newEdges arena grown := by
    intro new least most
    have member : new ∈ newEdges arena grown ++ [root] :=
      perm.mem_iff.mpr (mem_between.mpr ⟨least,last ▸ Nat.lt_succ_of_lt most⟩)
    rcases List.mem_append.mp member with edge | same
    · exact edge
    · exact absurd (List.mem_singleton.mp same) (Nat.ne_of_lt most)
  refine ⟨fun old smaller => ?_,last,size_eq,fun new least most => ?_,within,fun other => ?_⟩
  · obtain ⟨node,found⟩ := found_of_lt_size smaller
    rw [found,run.keeps old node found]
  · exact List.count_eq_one_of_mem distinct.of_append_left (once new least most)
  · constructor
    · intro path
      refine ⟨?_,owned_le consistent valid' path⟩
      induction path with
      | refl => exact fresh
      | tail _ owns ih => exact (within _ ((mem_newEdges consistent valid').mpr ⟨_,ih,owns⟩)).1
    · rintro ⟨least,most⟩
      refine below_root consistent valid' (fun new least smaller => ?_) least most
      obtain ⟨owner,first,owns⟩ := (mem_newEdges consistent valid').mp (once new least smaller)
      have ⟨node,found,_⟩ := owns
      have inGrown : owner < root + 1 := last ▸ lt_size_of_found found
      exact ⟨owner,first,Nat.le_of_lt_succ inGrown,owns⟩

/-- A clone leaves what was there as it is and adds a tree of nodes of its own. Assignments to old
nodes leave the clone as it is, and assignments to new nodes the original. -/
theorem run_clone_fresh {schema : Schema} {externals : NameSet} {model : Model} {arena : Arena}
    (resolved : schema.resolveWith externals = .ok model)
    (reached : Reached model (fun _ => True) arena) (copier : Copier) {id : NodeId}
    (inArena : id < arena.size) {cloned : Cloned} (done : arena.clone copier id = cloned) :
    ∃ root, cloned.result = .ok root ∧ FreshTree arena cloned.arena id root ∧
      (∀ operations : List Operation,
        (∀ operation ∈ operations, operation.SetsWithin (· < arena.size)) →
        SameBelow cloned.arena (cloned.arena.run operations) root) ∧
      ∀ operations : List Operation,
        (∀ operation ∈ operations, operation.SetsWithin (arena.size ≤ ·)) →
        SameBelow cloned.arena (cloned.arena.run operations) id := by
  have consistent := Schema.consistent_of_resolved resolved
  have valid := reached.valid_any consistent
  obtain rfl := reached.model_eq
  obtain ⟨root,after,_,same,run⟩ := clone_existing consistent valid copier inArena
  cases done.symm.trans same
  let grown : Arena := { arena with nodes := after.nodes }
  have valid' : AllValid arena.model (fun _ _ => True) grown.nodes :=
    run.valid consistent (fun _ _ _ _ _ => trivial) valid (List.forall_mem_singleton.mpr inArena)
  have tree : FreshTree arena grown id root := Clones.freshTree consistent valid valid' inArena run
  have untouched {region : NodeId → Prop} {operations : List Operation}
      (within : ∀ operation ∈ operations, operation.SetsWithin region) {below : NodeId}
      (outside : ¬ region below) (there : below < grown.size) :
      (grown.run operations).nodes[below]? = grown.nodes[below]? := by
    obtain ⟨node,found⟩ := found_of_lt_size there
    rw [found]
    exact run_found (show grown.model.Consistent from consistent) valid' within outside found
  refine ⟨root,rfl,tree,fun operations within => sameBelow fun below path => ?_,
    fun operations within => sameBelow fun below path => ?_⟩
  · obtain ⟨least,most⟩ := (tree.below below).mp path
    exact untouched within (Nat.not_lt.mpr least) (tree.last ▸ Nat.lt_succ_of_le most)
  · have older := owned_le consistent valid' path
    have smaller : below < arena.size := Nat.lt_of_le_of_lt older inArena
    refine untouched within (Nat.not_le.mpr smaller) ?_
    exact tree.size ▸ Nat.lt_add_right _ smaller

/-- The group of the sample lists one item twice, so its clone has three nodes. -/
theorem run_clone_fresh_sample :
    Reached sampleModel (fun _ => True) sampleArena ∧ 1 < sampleArena.size ∧
    (sampleArena.clone (fun _ ref => ref) 1).result = .ok 7 ∧
    (unfolding sampleArena.nodes 1).size = 3 ∧
    newEdges sampleArena (sampleArena.clone (fun _ ref => ref) 1).arena = [5,6] ∧
    FreshTree sampleArena (sampleArena.clone (fun _ ref => ref) 1).arena 1 7 := by
  have reached : Reached sampleModel (fun _ => True) sampleArena :=
    sampleArena_reached fun _ _ => trivial
  have inside : 1 < sampleArena.size := by decide
  have seven : (sampleArena.clone (fun _ ref => ref) 1).result = .ok 7 := by decide
  obtain ⟨root,result,tree,_⟩ :=
    run_clone_fresh sample_resolved reached (fun _ ref => ref) inside rfl
  cases Except.ok.inj (seven.symm.trans result)
  have sizes : (sampleArena.clone (fun _ ref => ref) 1).arena.size = 8 ∧ sampleArena.size = 5 := by
    decide
  have size := tree.size
  exact ⟨reached,inside,seven,by omega,by decide,tree⟩

end NodeModel.Arena
