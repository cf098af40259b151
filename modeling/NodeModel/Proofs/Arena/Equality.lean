import NodeModel.Proofs.Arena.CloneLaw

/-! Structural equality as equality of trees. The tree of a node is what is left when owned edges are
followed to their ends; nodes with equal trees are cloned to nodes with equal trees. -/
namespace NodeModel.Arena

/-- `tree` gives each node its class and, rule by rule, the contents of its fields: what an owned
edge leads to as a tree of its own, everything else as it is. -/
def Expands (arena : Arena) (tree : NodeId → Unfolding) : Prop :=
  ∀ (id : NodeId) (cls : Model.Class), arena.classOf id = .ok cls →
    ∃ slots, tree id = .node cls.name slots ∧
      List.Forall₂ (fun rule slot => ∃ contents, arena.get id rule.field = .ok contents ∧
        slot = unfoldSlot tree rule.step contents) cls.cloneRules slots

variable {model : Model} {held : String → ExternalRef → Prop} {arena : Arena}

theorem expands_unfolding (consistent : model.Consistent) (valid : AllValid model held arena.nodes) :
    arena.Expands (unfolding arena.nodes) := by
  intro id cls known
  obtain ⟨node,found,rfl⟩ := classOf_eq_ok known
  have shape := valid id node found
  have lists := consistent.classes node.cls shape.cls
  refine ⟨_,shape.unfolding_eq found,?_⟩
  rw [lists.cloneRules,List.forall₂_map_left_iff,List.forall₂_map_right_iff,List.forall₂_iff_get]
  refine ⟨by simp [shape.slots],fun position inFields inside => ?_⟩
  have atField : node.cls.fields[position]? = some node.cls.fields[position] :=
    List.getElem?_eq_getElem inFields
  have atSlot := shape.slot_at atField
  obtain ⟨bound,same⟩ := List.getElem?_eq_some_iff.mp atSlot
  exact ⟨node.slot position,get_eq_ok consistent valid found atField,by simp [same]⟩

/-- There is no other way to expand the nodes: an owned child is older than its owner. -/
theorem Expands.eq_unfolding (consistent : model.Consistent)
    (valid : AllValid model held arena.nodes) {tree : NodeId → Unfolding}
    (expands : arena.Expands tree) (id : NodeId) (inArena : id < arena.size) :
    tree id = unfolding arena.nodes id := by
  induction id using Nat.strong_induction_on with
  | _ id ih =>
    obtain ⟨node,found⟩ := found_of_lt_size inArena
    have shape := valid id node found
    have lists := consistent.classes node.cls shape.cls
    obtain ⟨slots,here,each⟩ := expands id node.cls (classOf_of_found found)
    obtain ⟨slots',here',each'⟩ :=
      expands_unfolding consistent valid id node.cls (classOf_of_found found)
    have same : slots = slots' := by
      rw [List.forall₂_iff_get] at each each'
      refine List.ext_get (each.1.symm.trans each'.1) fun position inside inside' => ?_
      have inRules : position < node.cls.cloneRules.length := each.1 ▸ inside
      obtain ⟨contents,given,slot⟩ := each.2 position inRules inside
      obtain ⟨contents',given',slot'⟩ := each'.2 position inRules inside'
      cases Except.ok.inj (given.symm.trans given')
      rw [slot,slot']
      obtain ⟨place,field,atField,step,located⟩ :=
        locate_rule lists (List.getElem_mem inRules)
      refine unfoldSlot_congr fun child member => ?_
      obtain ⟨_,named⟩ := (locate_eq_ok_iff lists.names).mp located
      simp only [List.get_eq_getElem] at given member
      rw [← named,get_eq_ok consistent valid found atField] at given
      rw [step,← Except.ok.inj given] at member
      obtain ⟨smaller,there⟩ := shape.owned_lt (Node.mem_owned_of_slot atField member)
      exact ih child smaller there
    rw [here,here',same]

/-- Nodes added later do not show in a tree. -/
theorem unfolding_kept {before after : Array Node} (valid : AllValid model held before)
    (valid' : AllValid model held after) (kept : Keeps before after) (id : NodeId)
    (inArena : id < before.size) : unfolding after id = unfolding before id := by
  induction id using Nat.strong_induction_on with
  | _ id ih =>
    obtain ⟨node,found⟩ := found_of_lt_size inArena
    have shape := valid id node found
    have found' := kept id node found
    rw [shape.unfolding_eq found,(valid' id node found').unfolding_eq found']
    congr 1
    refine List.map_congr_left fun entry member => unfoldSlot_congr fun child inside => ?_
    obtain ⟨smaller,there⟩ := shape.owned_lt (List.mem_flatMap.mpr ⟨entry,member,inside⟩)
    exact ih child smaller there

theorem structurallyEqual_decides (consistent : model.Consistent)
    (valid : AllValid model held arena.nodes) {left right : NodeId} (inArena : left < arena.size)
    (other : right < arena.size) :
    ∃ answer, arena.structurallyEqual left right = .ok answer ∧
      (answer = true ↔ unfolding arena.nodes left = unfolding arena.nodes right) := by
  obtain ⟨answer,right,given⟩ := equalNodes_decides consistent valid left right inArena other
  exact ⟨answer,given _ (Nat.le_succ_of_le inArena),right⟩

/-- A comparison is answered for existing nodes only. -/
theorem lt_size_of_structurallyEqual {left right : NodeId} {answer : Bool}
    (given : arena.structurallyEqual left right = .ok answer) :
    left < arena.size ∧ right < arena.size := by
  by_contra outside
  rw [not_and_or,Nat.not_lt,Nat.not_lt] at outside
  obtain ⟨id,fails⟩ := equalNodes_missing outside
  rw [structurallyEqual,fails _ (Nat.succ_pos _)] at given
  cases given

theorem structurallyEqual_iff (consistent : model.Consistent)
    (valid : AllValid model held arena.nodes) {left right : NodeId} (inArena : left < arena.size)
    (other : right < arena.size) :
    arena.structurallyEqual left right = .ok true ↔
      unfolding arena.nodes left = unfolding arena.nodes right := by
  obtain ⟨answer,given,right⟩ := structurallyEqual_decides consistent valid inArena other
  rw [given,← right,Except.ok.injEq]

variable {copy : ExternalRef → ExternalRef} {nodes : Array Node}

theorem map_eq_of_paired {below : NodeId → Unfolding} {paired paired' : NodeId → NodeId → Prop}
    (children : ∀ x x' y y', paired x x' → paired' y y' → below x = below y → below x' = below y')
    {xs xs' ys ys' : List NodeId} (pairs : List.Forall₂ paired xs xs')
    (pairs' : List.Forall₂ paired' ys ys') (same : xs.map below = ys.map below) :
    xs'.map below = ys'.map below := by
  induction pairs generalizing ys ys' with
  | nil =>
    cases pairs' with
    | nil => rfl
    | cons => simp at same
  | cons pair _ ih =>
    cases pairs' with
    | nil => simp at same
    | cons pair' rest' =>
      simp only [List.map_cons,List.cons.injEq] at same ⊢
      exact ⟨children _ _ _ _ pair pair' same.1,ih rest' same.2⟩

/-- Slots that unfold alike are cloned to slots that do, if their owned children are. -/
theorem SlotMirror.unfoldSlot_congr {below : NodeId → Unfolding}
    {paired paired' : NodeId → NodeId → Prop} {field : Model.Field}
    {slot slot' other other' : Option Value}
    (first : SlotMirror paired (fun ref new => copy ref = new) field slot slot')
    (second : SlotMirror paired' (fun ref new => copy ref = new) field other other')
    (children : ∀ x x' y y', paired x x' → paired' y y' → below x = below y → below x' = below y')
    (same : unfoldSlot below field.step slot = unfoldSlot below field.step other) :
    unfoldSlot below field.step slot' = unfoldSlot below field.step other' := by
  -- The step fixes how both are cloned; where it leaves a choice, the trees tell which it was.
  cases first with
  | reset slot step => rw [second.eq_initialSlot step]
  | kept slot step => rwa [second.eq_source step]
  | child step pair =>
    cases second with
    | child _ pair' =>
      simp only [unfoldSlot,step,Unfolding.child.injEq] at same ⊢
      exact children _ _ _ _ pair pair' same
    | _ => simp_all [unfoldSlot]
  | list step pairs =>
    cases second with
    | list _ pairs' =>
      simp only [unfoldSlot,step,Unfolding.list.injEq] at same ⊢
      exact map_eq_of_paired children pairs pairs' same
    | _ => simp_all [unfoldSlot]
  | external step copied =>
    cases second with
    | external _ copied' =>
      simp only [unfoldSlot,step,Unfolding.raw.injEq,Option.some.injEq,
        Value.external.injEq] at same ⊢
      rw [← copied,← copied',same]
    | _ => simp_all [unfoldSlot]
  | absent step =>
    cases second with
    | kept => exact same
    | absent => rfl
    | _ => simp_all [unfoldSlot]

/-- Nodes with equal trees have clones with equal trees. -/
theorem Mirrored.unfolding_congr (consistent : model.Consistent) (valid : AllValid model held nodes)
    {id clone other clone' : NodeId}
    (first : Mirrored (fun ref new => copy ref = new) nodes id clone)
    (second : Mirrored (fun ref new => copy ref = new) nodes other clone')
    (same : unfolding nodes id = unfolding nodes other) :
    unfolding nodes clone = unfolding nodes clone' := by
  induction first generalizing other clone' with
  | @intro id clone source node atSource atCopy mirrors _ ih =>
    cases second with
    | @intro _ _ source' node' atSource' atCopy' mirrors' owned' =>
      have shape := valid id source atSource
      have shape' := valid other source' atSource'
      have cls : source'.cls = source.cls := by
        rw [shape.unfolding_eq atSource,shape'.unfolding_eq atSource',Unfolding.node.injEq] at same
        exact consistent.eq_of_name shape'.cls shape.cls same.1.symm
      have cls' : node'.cls = node.cls := by rw [mirrors.cls,mirrors'.cls,cls]
      have slots := (Arena.unfolding_eq_iff shape shape' atSource atSource' cls).mp same
      have pairs := mirrors.repair shape.slots (List.forall₂_iff_zip.mpr
        ⟨(mirrors.owned shape.slots).length_eq,fun {x y} inside => @ih x y inside⟩)
      have pairs' := mirrors'.repair shape'.slots (List.forall₂_iff_zip.mpr
        ⟨(mirrors'.owned shape'.slots).length_eq,fun {x y} => owned' x y⟩)
      rw [Arena.unfolding_eq_iff (valid clone node atCopy) (valid clone' node' atCopy') atCopy
        atCopy' cls',mirrors.cls]
      intro position field atField
      refine (pairs.slotMirror shape.slots atField).unfoldSlot_congr
        (pairs'.slotMirror shape'.slots (cls.symm ▸ atField)) ?_ (slots position field atField)
      exact fun x x' y y' alike mirrored => alike mirrored

/-- Cloned one after the other, structurally equal nodes have structurally equal clones. -/
theorem clones_structurallyEqual (consistent : model.Consistent)
    (valid : AllValid model (fun _ _ => True) arena.nodes) {left right : NodeId}
    (equal : arena.structurallyEqual left right = .ok true) {once twice : Cloned}
    (first : arena.clone (fun _ => copy) left = once)
    (second : once.arena.clone (fun _ => copy) right = twice) :
    ∃ clone clone', once.result = .ok clone ∧ twice.result = .ok clone' ∧
      twice.arena.structurallyEqual clone clone' = .ok true := by
  obtain ⟨inArena,other⟩ := lt_size_of_structurallyEqual equal
  obtain ⟨clone,middle,_,done,run⟩ := clone_existing consistent valid (fun _ => copy) inArena
  cases first.symm.trans done
  have valid' : AllValid model (fun _ _ => True) middle.nodes :=
    run.valid consistent (fun _ _ _ _ _ => trivial) valid (List.forall_mem_singleton.mpr inArena)
  have other' : right < middle.nodes.size :=
    lt_size_of_found (run.keeps right _ (Array.getElem?_eq_getElem other))
  let grown : Arena := { arena with nodes := middle.nodes }
  obtain ⟨clone',after,_,done',run'⟩ :=
    @clone_existing _ _ grown consistent valid' (fun _ => copy) _ other'
  cases second.symm.trans done'
  have valid'' : AllValid model (fun _ _ => True) after.nodes :=
    run'.valid consistent (fun _ _ _ _ _ => trivial) valid' (List.forall_mem_singleton.mpr other')
  refine ⟨clone,clone',rfl,rfl,?_⟩
  rw [Copier.returns_pure] at run run'
  have kept : Keeps arena.nodes after.nodes := run.keeps.trans run'.keeps
  have mirrored := (run.mirrored left clone List.mem_cons_self).mono run'.keeps
  have mirrored' := run'.mirrored right clone' List.mem_cons_self
  have same : unfolding after.nodes left = unfolding after.nodes right := by
    rw [unfolding_kept valid valid'' kept left inArena,
      unfolding_kept valid valid'' kept right other]
    exact (structurallyEqual_iff consistent valid inArena other).mp equal
  have alike := mirrored.unfolding_congr consistent valid'' mirrored' same
  cases mirrored with
  | intro _ atClone =>
    cases mirrored' with
    | intro _ atClone' =>
      exact (structurallyEqual_iff consistent valid'' (lt_size_of_found atClone)
        (lt_size_of_found atClone')).mpr alike

/-- In every arena that a run over a resolved model reaches, nodes have trees, and structural
equality of two nodes is equality of their trees. So it is an equivalence, and clones that one
copier makes of structurally equal nodes are structurally equal. -/
theorem run_equality_law {schema : Schema} {externals : NameSet} {model : Model} {arena : Arena}
    (resolved : schema.resolveWith externals = .ok model)
    (reached : Reached model (fun _ => True) arena) :
    (∃ tree, arena.Expands tree) ∧
    (∀ tree, arena.Expands tree → ∀ left < arena.size, ∀ right < arena.size,
      ∃ answer, arena.structurallyEqual left right = .ok answer ∧
        (answer = true ↔ tree left = tree right)) ∧
    (Equivalence fun left right : Fin arena.size =>
      arena.structurallyEqual left right = .ok true) ∧
    ∀ (copy : ExternalRef → ExternalRef) (left right : NodeId) (once twice : Cloned),
      arena.structurallyEqual left right = .ok true → arena.clone (fun _ => copy) left = once →
      once.arena.clone (fun _ => copy) right = twice →
      ∃ clone clone', once.result = .ok clone ∧ twice.result = .ok clone' ∧
        twice.arena.structurallyEqual clone clone' = .ok true := by
  have consistent := Schema.consistent_of_resolved resolved
  have valid := reached.valid_any consistent
  refine ⟨⟨_,expands_unfolding consistent valid⟩,fun tree expands left inArena right other => ?_,?_,
    fun copy left right once twice equal => clones_structurallyEqual consistent valid equal⟩
  · obtain ⟨answer,given,right⟩ := structurallyEqual_decides consistent valid inArena other
    refine ⟨answer,given,?_⟩
    rw [expands.eq_unfolding consistent valid _ inArena,expands.eq_unfolding consistent valid _ other]
    exact right
  · have same (left right : Fin arena.size) : arena.structurallyEqual left right = .ok true ↔
        unfolding arena.nodes left = unfolding arena.nodes right :=
      structurallyEqual_iff consistent valid left.isLt right.isLt
    simp only [same]
    exact eq_equivalence.comap _

/-- The group of the sample and its clone are equal, though the clone owns two items and the group
one item twice; the group and its item are not. -/
theorem run_equality_law_sample :
    Reached sampleModel (fun _ => True) sampleArena ∧
    sampleArena.structurallyEqual 1 4 = .ok true ∧
    sampleArena.get 1 "members" = .ok (some (.list [0,0])) ∧
    sampleArena.get 4 "members" = .ok (some (.list [2,3])) ∧
    sampleArena.structurallyEqual 4 1 = .ok true ∧
    ∃ tree, sampleArena.Expands tree ∧ tree 1 = tree 4 ∧ tree 1 ≠ tree 0 := by
  have reached : Reached sampleModel (fun _ => True) sampleArena :=
    sampleArena_reached fun _ _ => trivial
  have equal : sampleArena.structurallyEqual 1 4 = .ok true := by decide
  have differ : sampleArena.structurallyEqual 1 0 = .ok false := by decide
  obtain ⟨⟨tree,expands⟩,law,equivalence,_⟩ := run_equality_law sample_resolved reached
  refine ⟨reached,equal,by decide,by decide,?_,tree,expands,?_,?_⟩
  · exact equivalence.symm (x := ⟨1,by decide⟩) (y := ⟨4,by decide⟩) equal
  · obtain ⟨answer,given,right⟩ := law tree expands 1 (by decide) 4 (by decide)
    exact right.mp (Except.ok.inj (given.symm.trans equal))
  · obtain ⟨answer,given,right⟩ := law tree expands 1 (by decide) 0 (by decide)
    cases Except.ok.inj (given.symm.trans differ)
    exact fun same => by simpa using right.mpr same

end NodeModel.Arena
