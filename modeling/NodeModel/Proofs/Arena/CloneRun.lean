import NodeModel.Proofs.Arena.Cloning

/-! The clone operation against the relation: on a valid arena it succeeds for every node, with any
fuel above the node's own number. -/
namespace NodeModel.Arena

variable {model : Model} {held : String → ExternalRef → Prop} {base : Array Node}
  {copier : Copier} {least : Nat}

def Gives {α : Type} (action : Cloning α) (before : Progress) (result : α) (after : Progress) :
    Prop :=
  action.run.run before = (.ok result,after)

theorem Gives.pure {α : Type} (result : α) (progress : Progress) :
    Gives (Pure.pure result : Cloning α) progress result progress := rfl

theorem Gives.bind {α β : Type} {action : Cloning α} {next : α → Cloning β}
    {before middle after : Progress} {first : α} {second : β}
    (left : Gives action before first middle) (right : Gives (next first) middle second after) :
    Gives (action >>= next) before second after := by
  unfold Gives at left ⊢
  rw [ExceptT.run_bind,StateT.run_bind,left]
  exact right

theorem Gives.lift {α : Type} (result : α) (progress : Progress) :
    Gives (liftM (Except.ok result : Except Fault α)) progress result progress := rfl

theorem existing_gives {id : NodeId} {node : Node} {progress : Progress}
    (found : progress.nodes[id]? = some node) : Gives (existing id) progress node progress := by
  have reads : Gives (getThe Progress : Cloning Progress) progress progress progress := rfl
  refine reads.bind ?_
  rw [found]
  rfl

theorem addNode_gives (node : Node) (progress : Progress) :
    Gives (addNode node) progress progress.nodes.size
      { progress with nodes := progress.nodes.push node } := rfl

/-- Wherever a run that started from `base` may stand, `child` is cloned, and alike with every fuel
from `least` on. -/
def Clonable (base : Array Node) (copier : Copier) (least : Nat) (child : NodeId) : Prop :=
  ∀ progress : Progress, Keeps base progress.nodes → ∃ copy after,
    (∀ fuel, least ≤ fuel → Gives (cloneNode copier fuel child) progress copy after) ∧
    Clones copier.Returns progress.nodes [child] after.nodes [copy]

theorem mapM_gives (children : List NodeId)
    (each : ∀ child ∈ children, Clonable base copier least child)
    (before : Progress) (kept : Keeps base before.nodes) :
    ∃ clones after,
      (∀ fuel, least ≤ fuel → Gives (children.mapM (cloneNode copier fuel)) before clones after) ∧
      Clones copier.Returns before.nodes children after.nodes clones := by
  induction children generalizing before with
  | nil => exact ⟨[],before,fun _ _ => by simpa using Gives.pure [] before,.done _⟩
  | cons child children ih =>
    obtain ⟨copy,middle,first,cloned⟩ := each child List.mem_cons_self before kept
    obtain ⟨clones,after,rest,cloned'⟩ := ih (fun other member =>
      each other (List.mem_cons_of_mem _ member)) middle (kept.trans cloned.keeps)
    refine ⟨copy :: clones,after,fun fuel enough => ?_,cloned.append cloned'⟩
    rw [List.mapM_cons]
    exact (first fuel enough).bind ((rest fuel enough).bind (.pure _ _))

theorem cloneSlot_none {again : NodeId → Cloning NodeId} {field : Model.Field}
    {step : Model.CloneStep} (kept : step ≠ .reset) :
    cloneSlot copier again field step none = Pure.pure none := by
  cases step with
  | reset => exact absurd rfl kept
  | _ => rfl

/-- A slot is cloned by its step; the children it owns are cloned in order. -/
theorem cloneSlot_gives {field : Model.Field} {slot : Option Value}
    (mode : field.policy.copyMode.Admissible field.kind field.policy.bound)
    (shape : ∀ value, slot = some value → value.ShapedAs held field.kind)
    (each : ∀ child ∈ ownedIds field.step slot, Clonable base copier least child)
    (before : Progress) (kept : Keeps base before.nodes) :
    ∃ slot' after,
      (∀ fuel, least ≤ fuel →
        Gives (cloneSlot copier (cloneNode copier fuel) field field.step slot) before slot' after) ∧
      Clones copier.Returns before.nodes (ownedIds field.step slot) after.nodes
        (ownedIds field.step slot') ∧
      SlotMirror (fun _ _ => True) copier.Returns field slot slot' := by
  have nothing {slot slot' : Option Value} (step : field.step.owns = false) :
      Clones copier.Returns before.nodes (ownedIds field.step slot) before.nodes
        (ownedIds field.step slot') := by
    simpa [ownedIds,step] using Clones.done before.nodes
  by_cases reset : field.step = .reset
  · have owns : field.step.owns = false := by rw [reset]; rfl
    exact ⟨initialSlot field,before,fun _ _ => by rw [reset]; exact .pure _ _,nothing owns,
      .reset slot reset⟩
  cases slot with
  | none =>
    refine ⟨none,before,fun _ _ => by rw [cloneSlot_none reset]; exact .pure _ _,?_,.absent reset⟩
    simpa [ownedIds] using Clones.done before.nodes
  | some value =>
    -- The step fixes the kind, and the kind the shape of the value.
    have shaped := shape value rfl
    cases step : field.step with
    | reset => exact absurd step reset
    | copyValue =>
      rw [step] at nothing
      exact ⟨_,before,fun _ _ => .pure _ _,nothing rfl,.kept _ (.inl step)⟩
    | shareReference =>
      rw [step] at nothing
      exact ⟨_,before,fun _ _ => .pure _ _,nothing rfl,.kept _ (.inr step)⟩
    | externalCopy type =>
      rw [Model.Field.kind_of_externalCopy step mode] at shaped
      rw [step] at nothing
      cases value with
      | external ref => exact ⟨_,_,fun _ _ => rfl,nothing rfl,.external step ⟨before.copied,rfl⟩⟩
      | _ => exact shaped.elim
    | cloneChild =>
      obtain ⟨target,kind⟩ := Model.Field.kind_of_cloneChild step
      rw [kind] at shaped
      rw [step] at each
      cases value with
      | node child =>
        obtain ⟨copy,after,run,cloned⟩ := each child (List.mem_singleton.mpr rfl) before kept
        exact ⟨some (.node copy),after,fun fuel enough => (run fuel enough).bind (.pure _ _),cloned,
          .child step trivial⟩
      | _ => exact shaped.elim
    | cloneList =>
      obtain ⟨target,kind⟩ := Model.Field.kind_of_cloneList step
      rw [kind] at shaped
      rw [step] at each
      cases value with
      | list children =>
        obtain ⟨clones,after,run,cloned⟩ := mapM_gives children each before kept
        refine ⟨some (.list clones),after,fun fuel enough => (run fuel enough).bind (.pure _ _),
          cloned,.list step ?_⟩
        exact List.forall₂_iff_get.mpr ⟨cloned.length_eq,fun _ _ _ => trivial⟩
      | _ => exact shaped.elim

/-- The rules of a class are worked off in the order of its fields. The induction is on the fields
still to come, each with its slot; `past` are those behind. -/
theorem cloneSlots_gives {source : Node} (lists : source.cls.Consistent)
    (past rest : List (Model.Field × Option Value)) (settled flags : List Bool)
    (fields_eq : source.cls.fields = (past ++ rest).map (·.1))
    (slots_eq : source.slots = (past ++ rest).map (·.2))
    (settled_length : settled.length = past.length) (flags_length : flags.length = rest.length)
    (shape : ∀ entry ∈ rest, ∀ value, entry.2 = some value → value.ShapedAs held entry.1.kind)
    (each : ∀ entry ∈ rest, ∀ child ∈ ownedIds entry.1.step entry.2,
      Clonable base copier least child)
    (before : Progress) (kept : Keeps base before.nodes) :
    ∃ slots after,
      (∀ fuel, least ≤ fuel → Gives (cloneSlots copier (cloneNode copier fuel) source
        (rest.map fun entry => ⟨entry.1.name,entry.1.step⟩) (settled ++ flags)) before
        (slots,settled ++ (rest.zip flags).map fun entry => entry.2 && entry.1.1.step != .reset)
        after) ∧
      Clones copier.Returns before.nodes (rest.flatMap fun entry => ownedIds entry.1.step entry.2)
        after.nodes (ownedBy (rest.map (·.1)) slots) ∧
      List.Forall₂ (fun entry slot =>
        SlotMirror (fun _ _ => True) copier.Returns entry.1 entry.2 slot) rest slots := by
  induction rest generalizing past settled flags before with
  | nil =>
    refine ⟨[],before,fun _ _ => ?_,.done _,.nil⟩
    cases flags with
    | nil => simpa [cloneSlots] using Gives.pure ([],settled) before
    | cons => simp at flags_length
  | cons entry rest ih =>
    obtain ⟨field,slot⟩ := entry
    cases flags with
    | nil => simp at flags_length
    | cons flag flags =>
      have atField : source.cls.fields[past.length]? = some field := by simp [fields_eq]
      have atSlot : source.slot past.length = slot := by simp [Node.slot,slots_eq]
      have located := (locate_eq_ok_iff lists.names).mpr ⟨atField,rfl⟩
      obtain ⟨slot',middle,run,cloned,mirror⟩ := cloneSlot_gives
        (lists.modes field (List.mem_of_getElem? atField)) (shape (field,slot) List.mem_cons_self)
        (each (field,slot) List.mem_cons_self) before kept
      have flags_eq : (if field.step = .reset then
            (settled ++ flag :: flags).set past.length false else settled ++ flag :: flags) =
          (settled ++ [flag && field.step != .reset]) ++ flags := by
        split
        next reset => simp [reset,← settled_length]
        next other => simp [other]
      obtain ⟨slots,after,run',cloned',mirrors⟩ := ih (past ++ [(field,slot)])
        (settled ++ [flag && field.step != .reset]) flags (by simpa using fields_eq)
        (by simpa using slots_eq) (by simpa using settled_length) (by simpa using flags_length)
        (fun entry member => shape entry (List.mem_cons_of_mem _ member))
        (fun entry member => each entry (List.mem_cons_of_mem _ member)) middle
        (kept.trans cloned.keeps)
      refine ⟨slot' :: slots,after,fun fuel enough => ?_,?_,.cons mirror mirrors⟩
      · rw [List.map_cons,cloneSlots,located]
        refine (Gives.lift (past.length,field) before).bind ?_
        dsimp only
        rw [atSlot]
        refine (run fuel enough).bind ?_
        rw [flags_eq]
        refine (run' fuel enough).bind ?_
        simpa using Gives.pure (slot' :: slots,settled ++ (flag && field.step != .reset) ::
          (rest.zip flags).map fun entry => entry.2 && entry.1.1.step != .reset) after
      · simpa [ownedBy] using cloned.append cloned'

/-- In a valid arena a node is cloned, and alike with every fuel above its own number: the children
it owns have smaller numbers. -/
theorem cloneNode_gives (consistent : model.Consistent) (valid : AllValid model held base)
    (id : NodeId) (inArena : id < base.size) : Clonable base copier (id + 1) id := by
  induction id using Nat.strong_induction_on with
  | _ id ih =>
    intro before kept
    obtain ⟨source,found⟩ := found_of_lt_size inArena
    have node := valid id source found
    have lists := consistent.classes source.cls node.cls
    have each : ∀ child ∈ source.owned, Clonable base copier id child := by
      intro child member progress kept
      obtain ⟨smaller,existing⟩ := node.owned_lt member
      obtain ⟨copy,after,run,cloned⟩ := ih child smaller existing progress kept
      exact ⟨copy,after,fun fuel enough => run fuel (Nat.le_trans smaller enough),cloned⟩
    let entries := source.cls.fields.zip source.slots
    have fields_eq : entries.map (·.1) = source.cls.fields :=
      List.map_fst_zip (Nat.le_of_eq node.slots.symm)
    have slots_eq : entries.map (·.2) = source.slots := List.map_snd_zip (Nat.le_of_eq node.slots)
    have rules_eq : source.cls.cloneRules = entries.map fun entry =>
        ⟨entry.1.name,entry.1.step⟩ := by
      rw [lists.cloneRules,← fields_eq,List.map_map]
      rfl
    have flags_eq : ((entries.zip source.assigned).map fun entry =>
          entry.2 && entry.1.1.step != .reset) =
        (source.cls.fields.zip source.assigned).map fun entry =>
          entry.2 && entry.1.step != .reset := by
      rw [← fields_eq,List.zip_map_left,List.map_map]
      rfl
    obtain ⟨slots,after,run,cloned,mirrors⟩ := cloneSlots_gives lists [] entries []
      source.assigned fields_eq.symm slots_eq.symm rfl
      (by rw [node.assigned,← fields_eq,List.length_map])
      (by
        intro entry member value present
        obtain ⟨position,atEntry⟩ := List.getElem?_of_mem member
        obtain ⟨atField,atSlot⟩ := List.getElem?_zip_eq_some.mp atEntry
        exact (node.fits position entry.1 value atField (present ▸ atSlot)).shape)
      (fun entry member child inside => each child (List.mem_flatMap.mpr ⟨entry,member,inside⟩))
      before kept
    simp only [← rules_eq,List.nil_append,flags_eq] at run
    rw [fields_eq] at cloned
    let copy : Node := ⟨source.cls,slots,
      (source.cls.fields.zip source.assigned).map fun entry => entry.2 && entry.1.step != .reset⟩
    have children : Clones copier.Returns before.nodes source.owned after.nodes copy.owned := cloned
    refine ⟨after.nodes.size,{ after with nodes := after.nodes.push copy },fun fuel enough => ?_,
      .next (kept id source found) children ⟨rfl,mirrors,rfl⟩ (.done _)⟩
    obtain ⟨fuel,rfl⟩ := Nat.exists_eq_add_one.mpr (Nat.zero_lt_of_lt enough)
    rw [cloneNode]
    exact (existing_gives (kept id source found)).bind
      ((run fuel (Nat.le_of_succ_le_succ enough)).bind (addNode_gives copy after))

/-- The clone of an existing node succeeds, with the outcome of every fuel above its number. -/
theorem clone_existing {arena : Arena} (consistent : model.Consistent)
    (valid : AllValid model held arena.nodes) (copier : Copier) {id : NodeId}
    (inArena : id < arena.size) :
    ∃ copy after,
      (∀ fuel, id < fuel → Gives (cloneNode copier fuel id) ⟨arena.nodes,[]⟩ copy after) ∧
      arena.clone copier id = ⟨.ok copy,{ arena with nodes := after.nodes },after.copied⟩ ∧
      Clones copier.Returns arena.nodes [id] after.nodes [copy] := by
  have clonable : Clonable arena.nodes copier (id + 1) id :=
    cloneNode_gives consistent valid id inArena
  obtain ⟨copy,after,run,cloned⟩ := clonable ⟨arena.nodes,[]⟩ (.refl _)
  have same := run (arena.size + 1) (Nat.le_succ_of_le inArena)
  unfold Gives at same
  exact ⟨copy,after,run,by simp only [clone,same],cloned⟩

theorem cloneNode_missing {copier : Copier} {fuel : Nat} {id : NodeId} {progress : Progress}
    (missing : progress.nodes[id]? = none) (enough : 0 < fuel) :
    (cloneNode copier fuel id).run.run progress = (.error (.unknownNode id),progress) := by
  obtain ⟨fuel,rfl⟩ := Nat.exists_eq_add_one.mpr enough
  have fails : (existing id).run.run progress = (.error (.unknownNode id),progress) := by
    have reads : Gives (getThe Progress : Cloning Progress) progress progress progress := rfl
    unfold Gives at reads
    rw [existing,ExceptT.run_bind,StateT.run_bind,reads]
    simp only [bind,missing]
    rfl
  rw [cloneNode,ExceptT.run_bind,StateT.run_bind,fails]
  rfl

/-- A clone of nothing fails before anything is done. -/
theorem clone_missing {arena : Arena} (copier : Copier) {id : NodeId} (missing : arena.size ≤ id) :
    arena.clone copier id = ⟨.error (.unknownNode id),arena,[]⟩ := by
  let start : Progress := ⟨arena.nodes,[]⟩
  have absent : start.nodes[id]? = none := Array.getElem?_eq_none missing
  have fails := @cloneNode_missing copier _ _ _ absent (Nat.succ_pos arena.size)
  simp only [clone,start,fails]

end NodeModel.Arena
