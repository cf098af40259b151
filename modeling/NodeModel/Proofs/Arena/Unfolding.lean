import NodeModel.Proofs.Arena.Cloning

/-! Unfoldings: the finite tree below a node when owned edges are followed and everything else is
taken as it stands. Structural equality is equality of unfoldings. -/
namespace NodeModel.Arena

inductive Unfolding where
  /-- Contents that own nothing. -/
  | raw (slot : Option Value)
  | child (below : Unfolding)
  | list (items : List Unfolding)
  | node (cls : String) (slots : List Unfolding)

def unfoldSlot (below : NodeId → Unfolding) (step : Model.CloneStep) (slot : Option Value) :
    Unfolding :=
  match step, slot with
  | .cloneChild, some (.node id) => .child (below id)
  | .cloneList, some (.list ids) => .list (ids.map below)
  | _, slot => .raw slot

/-- The unfolding of a node. An owned child that is not older than its owner, and a node that is not
there, read as nothing. -/
def unfolding (nodes : Array Node) (id : NodeId) : Unfolding :=
  match nodes[id]? with
  | none => .raw none
  | some node => .node node.cls.name ((node.cls.fields.zip node.slots).map fun entry =>
      unfoldSlot (fun child => if _older : child < id then unfolding nodes child else .raw none)
        entry.1.step entry.2)
termination_by id

theorem unfoldSlot_congr {below below' : NodeId → Unfolding} {step : Model.CloneStep}
    {slot : Option Value} (same : ∀ child ∈ ownedIds step slot, below child = below' child) :
    unfoldSlot below step slot = unfoldSlot below' step slot := by
  unfold unfoldSlot
  split
  · rw [same _ (by simp [ownedIds,Model.CloneStep.owns,Value.nodeIds])]
  · rw [List.map_congr_left fun child member => same child (by
      simpa [ownedIds,Model.CloneStep.owns,Value.nodeIds] using member)]
  · rfl

variable {model : Model} {held : String → ExternalRef → Prop} {nodes : Array Node}

theorem Node.Valid.unfolding_eq {id : NodeId} {node : Node}
    (valid : node.Valid model held nodes id) (found : nodes[id]? = some node) :
    unfolding nodes id = .node node.cls.name ((node.cls.fields.zip node.slots).map fun entry =>
      unfoldSlot (unfolding nodes) entry.1.step entry.2) := by
  rw [unfolding,found]
  simp only [Unfolding.node.injEq,true_and]
  refine List.map_congr_left fun entry member => unfoldSlot_congr fun child inside => ?_
  have owned : child ∈ node.owned := List.mem_flatMap.mpr ⟨entry,member,inside⟩
  exact dif_pos (valid.owned_lt owned).1

/-- Two nodes of one class unfold alike if each of their slots does. -/
theorem unfolding_eq_iff {id other : NodeId} {left right : Node}
    (valid : left.Valid model held nodes id) (valid' : right.Valid model held nodes other)
    (found : nodes[id]? = some left) (found' : nodes[other]? = some right)
    (same : right.cls = left.cls) :
    unfolding nodes id = unfolding nodes other ↔
      ∀ (position : Nat) (field : Model.Field), left.cls.fields[position]? = some field →
        unfoldSlot (unfolding nodes) field.step (left.slot position) =
          unfoldSlot (unfolding nodes) field.step (right.slot position) := by
  rw [valid.unfolding_eq found,valid'.unfolding_eq found',same]
  simp only [Unfolding.node.injEq,true_and,List.ext_getElem?_iff,List.getElem?_map]
  refine forall_congr' fun position => ?_
  cases atField : left.cls.fields[position]? with
  | none => simp [List.getElem?_eq_none_iff.mp atField]
  | some field =>
    have atLeft : (left.cls.fields.zip left.slots)[position]? =
        some (field,left.slot position) :=
      List.getElem?_zip_eq_some.mpr ⟨atField,valid.slot_at atField⟩
    have atRight : (left.cls.fields.zip right.slots)[position]? =
        some (field,right.slot position) :=
      List.getElem?_zip_eq_some.mpr ⟨atField,valid'.slot_at (same.symm ▸ atField)⟩
    simp [atLeft,atRight]

/-- The check gives one answer with every fuel from `least` on, and the answer decides `P`. -/
def Decides (check : Nat → Except Fault Bool) (least : Nat) (P : Prop) : Prop :=
  ∃ answer : Bool, (answer = true ↔ P) ∧ ∀ fuel, least ≤ fuel → check fuel = .ok answer

theorem Decides.congr {check : Nat → Except Fault Bool} {least : Nat} {P Q : Prop}
    (decides : Decides check least P) (same : P ↔ Q) : Decides check least Q := by
  obtain ⟨answer,right,given⟩ := decides
  exact ⟨answer,right.trans same,given⟩

theorem Decides.mono {check : Nat → Except Fault Bool} {least least' : Nat} {P : Prop}
    (decides : Decides check least P) (more : least ≤ least') : Decides check least' P := by
  obtain ⟨answer,right,given⟩ := decides
  exact ⟨answer,right,fun fuel enough => given fuel (Nat.le_trans more enough)⟩

theorem Decides.succ {check deeper : Nat → Except Fault Bool} {least : Nat} {P : Prop}
    (decides : Decides check least P) (step : ∀ fuel, deeper (fuel + 1) = check fuel) :
    Decides deeper (least + 1) P := by
  obtain ⟨answer,right,given⟩ := decides
  refine ⟨answer,right,fun fuel enough => ?_⟩
  obtain ⟨fuel,rfl⟩ := Nat.exists_eq_add_one.mpr (Nat.zero_lt_of_lt enough)
  exact (step fuel).trans (given fuel (Nat.le_of_succ_le_succ enough))

theorem Decides.allM {α : Type} {check : Nat → α → Except Fault Bool} {least : Nat}
    {P : α → Prop} (items : List α)
    (each : ∀ item ∈ items, Decides (fun fuel => check fuel item) least (P item)) :
    Decides (fun fuel => items.allM (check fuel)) least (∀ item ∈ items, P item) := by
  induction items with
  | nil => exact ⟨true,by simp,fun _ _ => rfl⟩
  | cons item items ih =>
    obtain ⟨first,right,given⟩ := each item List.mem_cons_self
    obtain ⟨rest,right',given'⟩ := ih fun other member => each other (List.mem_cons_of_mem _ member)
    refine ⟨first && rest,by simp [right,right'],fun fuel enough => ?_⟩
    have start : check fuel item = .ok first := given fuel enough
    simp only [List.allM,start]
    cases first with
    | false => rfl
    | true => exact given' fuel enough

theorem equalSlots_decides {arena : Arena} {least : Nat} {step : Model.CloneStep}
    {left right : Option Value} {below : NodeId → Unfolding}
    (each : ∀ x ∈ ownedIds step left, ∀ y ∈ ownedIds step right,
      Decides (fun fuel => arena.equalNodes fuel x y) least (below x = below y)) :
    Decides (fun fuel => equalSlots (arena.equalNodes fuel) step left right) least
      (unfoldSlot below step left = unfoldSlot below step right) := by
  unfold equalSlots
  split
  next x y =>
    refine (each x ?_ y ?_).congr (by simp [unfoldSlot])
    all_goals simp [ownedIds,Model.CloneStep.owns,Value.nodeIds]
  next xs ys =>
    by_cases same : xs.length = ys.length
    · simp only [same,BEq.rfl,if_true]
      refine (Decides.allM (xs.zip ys) (P := fun pair => below pair.1 = below pair.2) ?_).congr ?_
      · rintro ⟨x,y⟩ member
        obtain ⟨inside,inside'⟩ := List.of_mem_zip member
        exact each x inside y inside'
      · rw [unfoldSlot,unfoldSlot,Unfolding.list.injEq,← List.forall₂_eq_eq_eq,
          List.forall₂_map_left_iff,List.forall₂_map_right_iff,List.forall₂_iff_zip]
        simp [same]
    · refine ⟨false,?_,fun _ _ => by simp [same]; rfl⟩
      simp only [unfoldSlot,Unfolding.list.injEq,Bool.false_eq_true,false_iff]
      exact fun equal => same (by simpa using congrArg List.length equal)
  next children lists =>
    refine ⟨left == right,?_,fun _ _ => rfl⟩
    rw [beq_iff_eq]
    unfold unfoldSlot
    split <;> split <;> grind

theorem equalNodes_succ {arena : Arena} {left right : NodeId} {a b : Node}
    (atLeft : arena.nodes[left]? = some a) (atRight : arena.nodes[right]? = some b) (fuel : Nat) :
    arena.equalNodes (fuel + 1) left right =
      if a.cls.name != b.cls.name then .ok false else
      a.cls.cloneRules.allM fun rule => locate a.cls rule.field >>= fun place =>
        equalSlots (arena.equalNodes fuel) rule.step (a.slot place.1) (b.slot place.1) := by
  rw [equalNodes,node_eq_ok_iff.mpr atLeft,node_eq_ok_iff.mpr atRight]
  rfl

/-- The clone rules of a class compare all slots. -/
theorem cloneRules_decide {arena : Arena} {a b : Node} {least : Nat} {below : NodeId → Unfolding}
    (lists : a.cls.Consistent) (same : b.cls = a.cls)
    (each : ∀ x ∈ a.owned, ∀ y ∈ b.owned,
      Decides (fun fuel => arena.equalNodes fuel x y) least (below x = below y)) :
    Decides (fun fuel => a.cls.cloneRules.allM fun rule => locate a.cls rule.field >>= fun place =>
        equalSlots (arena.equalNodes fuel) rule.step (a.slot place.1) (b.slot place.1)) least
      (∀ (position : Nat) (field : Model.Field), a.cls.fields[position]? = some field →
        unfoldSlot below field.step (a.slot position) =
          unfoldSlot below field.step (b.slot position)) := by
  have rules : Decides (fun fuel => a.cls.cloneRules.allM fun rule =>
        locate a.cls rule.field >>= fun place =>
          equalSlots (arena.equalNodes fuel) rule.step (a.slot place.1) (b.slot place.1)) least
      (∀ rule ∈ a.cls.cloneRules, ∀ place, locate a.cls rule.field = .ok place →
        unfoldSlot below rule.step (a.slot place.1) =
          unfoldSlot below rule.step (b.slot place.1)) := by
    refine Decides.allM _ fun rule member => ?_
    obtain ⟨position,field,atField,step,located⟩ := locate_rule lists member
    simp only [located,step,Except.ok.injEq,forall_eq']
    refine equalSlots_decides fun x inside y inside' => each x ?_ y ?_
    · exact Node.mem_owned_of_slot atField inside
    · exact Node.mem_owned_of_slot (same.symm ▸ atField) inside'
  refine rules.congr ⟨fun slots position field atField => ?_,
    fun slots rule member place located => ?_⟩
  · have located := (locate_eq_ok_iff lists.names).mpr ⟨atField,rfl⟩
    refine slots ⟨field.name,field.step⟩ ?_ (position,field) located
    rw [lists.cloneRules]
    exact List.mem_map_of_mem (List.mem_of_getElem? atField)
  · obtain ⟨position,field,atField,step,located'⟩ := locate_rule lists member
    cases Except.ok.inj (located'.symm.trans located)
    exact step ▸ slots position field atField

/-- In a valid arena structural equality of two nodes is decided with any fuel above the number of
the first. -/
theorem equalNodes_decides {arena : Arena} (consistent : model.Consistent)
    (valid : AllValid model held arena.nodes) (left right : NodeId) (inArena : left < arena.size)
    (other : right < arena.size) :
    Decides (fun fuel => arena.equalNodes fuel left right) (left + 1)
      (unfolding arena.nodes left = unfolding arena.nodes right) := by
  induction left using Nat.strong_induction_on generalizing right with
  | _ left ih =>
    obtain ⟨a,atLeft⟩ := found_of_lt_size inArena
    obtain ⟨b,atRight⟩ := found_of_lt_size other
    have first := valid left a atLeft
    have second := valid right b atRight
    by_cases same : a.cls.name = b.cls.name
    · have cls : b.cls = a.cls := consistent.eq_of_name second.cls first.cls same.symm
      have lists := consistent.classes a.cls first.cls
      have slots := cloneRules_decide lists cls fun x inside y inside' =>
        (ih x (first.owned_lt inside).1 y (first.owned_lt inside).2
          (second.owned_lt inside').2).mono (first.owned_lt inside).1
      have decided := slots.congr (unfolding_eq_iff first second atLeft atRight cls).symm
      exact decided.succ fun fuel => by simp [equalNodes_succ atLeft atRight,same]
    · have differ : Decides (fun _ => .ok false) left
          (unfolding arena.nodes left = unfolding arena.nodes right) := by
        refine ⟨false,?_,fun _ _ => rfl⟩
        rw [first.unfolding_eq atLeft,second.unfolding_eq atRight]
        simp [same]
      exact differ.succ fun fuel => by simp [equalNodes_succ atLeft atRight,same]

end NodeModel.Arena
