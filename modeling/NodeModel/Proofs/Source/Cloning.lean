import NodeModel.Proofs.Source.Reading

/-! Structural clones: the emitted method adds the objects that stand for the nodes which the arena
adds, in the same order, and hands the same external values to the copier. -/
namespace NodeModel

namespace Arena

variable {α β : Type} {before after : Progress}

theorem Gives.bind_inv {action : Cloning α} {next : α → Cloning β} {second : β}
    (gives : Gives (action >>= next) before second after) :
    ∃ first middle, Gives action before first middle ∧ Gives (next first) middle second after := by
  unfold Gives at gives ⊢
  rw [ExceptT.run_bind,StateT.run_bind] at gives
  cases run : action.run.run before with
  | mk result middle =>
    rw [run] at gives
    cases result with
    | error fault => cases gives
    | ok first => exact ⟨first,middle,rfl,gives⟩

theorem Gives.pure_inv {result outcome : α}
    (gives : Gives (Pure.pure result : Cloning α) before outcome after) :
    result = outcome ∧ before = after := by
  cases gives
  exact ⟨rfl,rfl⟩

theorem Gives.lift_inv {found : Except Fault α} {result : α}
    (gives : Gives (liftM found) before result after) : found = .ok result ∧ before = after := by
  cases found with
  | error fault => cases gives
  | ok value =>
    cases gives
    exact ⟨rfl,rfl⟩

theorem cloneSlots_cons_inv {copier : Copier} {again : NodeId → Cloning NodeId} {source : Node}
    {rule : Model.CloneRule} {rules : List Model.CloneRule} {flags assigned : List Bool}
    {slots : List (Option Value)}
    (gives : Gives (cloneSlots copier again source (rule :: rules) flags) before (slots,assigned)
      after) :
    ∃ position field slot rest middle, locate source.cls rule.field = .ok (position,field) ∧
      Gives (cloneSlot copier again field rule.step (source.slot position)) before slot middle ∧
      Gives (cloneSlots copier again source rules
        (if rule.step = .reset then flags.set position false else flags)) middle (rest,assigned)
        after ∧ slots = slot :: rest := by
  rw [cloneSlots] at gives
  obtain ⟨⟨position,field⟩,_,lifted,gives⟩ := gives.bind_inv
  obtain ⟨located,rfl⟩ := lifted.lift_inv
  obtain ⟨slot,middle,cloned,gives⟩ := gives.bind_inv
  obtain ⟨⟨rest,final⟩,_,later,done⟩ := gives.bind_inv
  obtain ⟨same,rfl⟩ := done.pure_inv
  cases same
  exact ⟨position,field,slot,rest,middle,located,cloned,later,rfl⟩

/-- After a clone a field is assigned if it was before and no rule resets it. -/
theorem cloneSlots_assigned {copier : Copier} {again : NodeId → Cloning NodeId} {source : Node}
    (lists : source.cls.Consistent) {rules : List Model.CloneRule} {flags assigned : List Bool}
    {slots : List (Option Value)}
    (gives : Gives (cloneSlots copier again source rules flags) before (slots,assigned) after)
    {position : Nat} {field : Model.Field} (atField : source.cls.fields[position]? = some field) :
    assigned[position]?.getD false = (flags[position]?.getD false &&
      !rules.any fun rule => rule.field == field.name && rule.step == .reset) := by
  induction rules generalizing flags slots before with
  | nil =>
    rw [cloneSlots] at gives
    obtain ⟨same,_⟩ := gives.pure_inv
    cases same
    simp
  | cons rule rules ih =>
    obtain ⟨place,target,_,_,_,located,_,later,_⟩ := cloneSlots_cons_inv gives
    obtain ⟨atPlace,named⟩ := (locate_eq_ok_iff lists.names).mp located
    rw [ih later,List.any_cons]
    by_cases reset : rule.step = .reset
    · rw [if_pos reset,List.getElem?_set]
      by_cases here : place = position
      · subst here
        cases Option.some.inj (atPlace.symm.trans atField)
        simp only [named,reset,beq_self_eq_true,Bool.and_self,Bool.true_or,if_true]
        split <;> simp
      · have apart : (rule.field == field.name) = false := by
          refine beq_eq_false_iff_ne.mpr fun same => here ?_
          have both := located.symm.trans
            ((locate_eq_ok_iff lists.names).mpr ⟨atField,same.symm⟩)
          exact (Prod.mk.inj (Except.ok.inj both)).1
        simp [here,apart]
    · rw [if_neg reset,beq_eq_false_iff_ne.mpr reset,Bool.and_false,Bool.false_or]

theorem existing_inv {id : NodeId} {node : Node} (gives : Gives (existing id) before node after) :
    before.nodes[id]? = some node ∧ before = after := by
  obtain ⟨progress,_,read,gives⟩ := gives.bind_inv
  cases read
  cases found : before.nodes[id]? with
  | none =>
    rw [found] at gives
    cases gives
  | some other =>
    rw [found] at gives
    obtain ⟨rfl,rfl⟩ := gives.pure_inv
    exact ⟨rfl,rfl⟩

theorem any_reset {cls : Model.Class} (lists : cls.Consistent) {field : Model.Field}
    (inside : field ∈ cls.fields) :
    (cls.cloneRules.any fun rule => rule.field == field.name && rule.step == .reset) =
      (field.step == .reset) := by
  rw [lists.cloneRules,List.any_map,Bool.eq_iff_iff,List.any_eq_true]
  constructor
  · rintro ⟨other,there,both⟩
    obtain ⟨named,reset⟩ := Bool.and_eq_true _ _ ▸ both
    cases List.inj_on_of_nodup_map lists.names there inside (eq_of_beq named)
    exact reset
  · intro reset
    exact ⟨field,inside,by simpa using reset⟩

end Arena

namespace Source

open Arena (NodeId ExternalRef Node Value Copier Progress Gives cloneNode cloneSlot initialSlot)

variable {model : Model} {copier : Copier} {fuel : Nat} {memory : Memory}
  {progress progress' : Progress}

/-- The memory of the emitted methods against the progress of a clone in the arena. -/
structure Follows (model : Model) (memory : Memory) (progress : Progress) : Prop where
  related : Related model memory.heap progress.nodes
  classes : Classes model progress.nodes
  copied : memory.copied = progress.copied

/-- Memory went on from `before` to `after` while the arena came to `progress`. -/
structure Advances (model : Model) (before after : Memory) (progress : Progress) : Prop where
  follows : Follows model after progress
  kept : ClassesStay before.heap after.heap

theorem Advances.refl (follows : Follows model memory progress) :
    Advances model memory memory progress :=
  ⟨follows,.refl _⟩

theorem Advances.trans {middle after : Memory} (first : Advances model memory middle progress)
    (second : Advances model middle after progress') : Advances model memory after progress' :=
  ⟨second.follows,first.kept.trans second.kept⟩

def cloneContext (model : Model) (copier : Copier) (fuel : Nat) : Context :=
  ⟨(SourceFile.of model).leaves,copier,(SourceFile.of model).clone copier fuel⟩

/-- What the arena clones with this much fuel, the emitted methods clone alike. -/
def ClonesAlike (model : Model) (copier : Copier) (fuel : Nat) : Prop :=
  ∀ ⦃memory progress progress' id copy object⦄, Follows model memory progress →
    memory.heap[id]? = some object → Gives (cloneNode copier fuel id) progress copy progress' →
    ∃ clone memory', Yields ((SourceFile.of model).clone copier fuel object) memory clone memory' ∧
      clone.cls = object.cls ∧ copy = memory'.heap.size ∧
      Advances model memory { memory' with heap := memory'.heap.push clone } progress'

section

variable {target : Model.Class} {scope : Scope} {expr : Expr}

/-- An owned child is cloned and put on the heap. -/
theorem Sound.freshChild_yields (sound : Sound model) (alike : ClonesAlike model copier fuel)
    (follows : Follows model memory progress) (known : target ∈ model.classes) {id copy : NodeId}
    (typed : IsEdge (.of model) memory.heap false (.of model target.name) (.strong id))
    (child : Yields (expr.act (cloneContext model copier fuel) scope) memory (.strong id) memory)
    (gives : Gives (cloneNode copier fuel id) progress copy progress') :
    ∃ memory', Yields ((freshChild expr).act (cloneContext model copier fuel) scope) memory
        (.strong copy) memory' ∧
      Advances model memory memory' progress' ∧
      IsEdge (.of model) memory'.heap false (.of model target.name) (.strong copy) := by
  obtain ⟨object,found,behind⟩ := sound.behind_yields follows.related follows.classes
    (rfl : (cloneContext model copier fuel).leaves = _) known typed
  obtain ⟨clone,memory',cloned,cls,rfl,advances⟩ := alike follows found gives
  have method : Yields (Method.act (cloneContext model copier fuel) .structuralClone (.strong id))
      memory (.object clone.cls clone.members) memory' :=
    behind.bind (cloned.bind (.pure _ _))
  refine ⟨_,Expr.apply_yields (Expr.call_yields child method) rfl,advances,?_⟩
  obtain ⟨other,old,same,atId,admitted⟩ := typed
  obtain rfl : id = other := by simpa [edge] using same
  cases Option.some.inj (found.symm.trans atId)
  exact ⟨_,clone,rfl,by simp,cls ▸ admitted⟩

theorem Sound.freshChildren_yield (sound : Sound model) (alike : ClonesAlike model copier fuel)
    (scope : Scope) (follows : Follows model memory progress) (known : target ∈ model.classes)
    {ids copies : List NodeId}
    (typed : ∀ id ∈ ids, IsEdge (.of model) memory.heap false (.of model target.name) (.strong id))
    (gives : Gives (ids.mapM (cloneNode copier fuel)) progress copies progress') :
    ∃ memory', Yields ((ids.map Data.strong).mapM fun child =>
          (freshChild (.variable "c")).act (cloneContext model copier fuel) (scope.bind "c" child))
        memory (copies.map Data.strong) memory' ∧
      Advances model memory memory' progress' ∧
      ∀ copy ∈ copies,
        IsEdge (.of model) memory'.heap false (.of model target.name) (.strong copy) := by
  induction ids generalizing memory progress copies with
  | nil =>
    rw [List.mapM_nil] at gives
    obtain ⟨rfl,rfl⟩ := gives.pure_inv
    exact ⟨memory,.pure _ _,.refl follows,by simp⟩
  | cons id ids ih =>
    rw [List.mapM_cons] at gives
    obtain ⟨copy,_,first,gives⟩ := gives.bind_inv
    obtain ⟨rest,_,later,done⟩ := gives.bind_inv
    obtain ⟨rfl,rfl⟩ := done.pure_inv
    have child : Yields ((Expr.variable "c").act (cloneContext model copier fuel)
        (scope.bind "c" (.strong id))) memory (.strong id) memory := Expr.variable_yields rfl memory
    obtain ⟨middle,yields,advances,fresh⟩ := sound.freshChild_yields alike follows known
      (typed id List.mem_cons_self) child first
    obtain ⟨memory',yields',advances',each⟩ := ih advances.follows
      (fun other listed => (typed other (List.mem_cons_of_mem _ listed)).mono advances.kept) later
    refine ⟨memory',?_,advances.trans advances',?_⟩
    · rw [List.map_cons,List.mapM_cons]
      exact yields.bind (yields'.bind (.pure _ _))
    · exact List.forall_mem_cons.mpr ⟨fresh.mono advances'.kept,each⟩

end

def BodyClones (model : Model) (copier : Copier) (fuel : Nat) (field : Model.Field)
    (body : Expr → Expr) : Prop :=
  ∀ ⦃memory progress progress' scope expr data value slot⦄, Follows model memory progress →
    HasType (.of model) memory.heap (.of model field) data → data.value? = some value →
    Yields (expr.act (cloneContext model copier fuel) scope) memory data memory →
    Gives (cloneSlot copier (cloneNode copier fuel) field field.step (some value)) progress slot
      progress' →
    ∃ data' value' memory',
      Yields ((body expr).act (cloneContext model copier fuel) scope) memory data' memory' ∧
      Advances model memory memory' progress' ∧
      HasType (.of model) memory'.heap (.of model field) data' ∧
      data'.value? = some value' ∧ slot = some value'

theorem isWeak_of_owns {field : Model.Field} (owns : field.step.owns = true) :
    isWeak field = false := by
  obtain ⟨deep,_⟩ := field.owns_iff.mp owns
  simp [isWeak,deep]

section

variable {cls : Model.Class} {field : Model.Field}

theorem Sound.child_bodyClones (sound : Sound model) (alike : ClonesAlike model copier fuel)
    (member : cls ∈ model.classes) (inside : field ∈ cls.fields)
    (step : field.step = .cloneChild) : BodyClones model copier fuel field freshChild := by
  intro memory progress progress' scope expr data value slot follows typed shown child gives
  obtain ⟨name,kind⟩ := Model.Field.kind_of_cloneChild step
  obtain ⟨target,known,rfl⟩ := sound.target member inside (by rw [kind]; rfl)
  have type : ValueType.of model field = .edge false (.of model target.name) := by
    rw [ValueType.of,kind,isWeak_of_owns (by rw [step]; rfl)]
  rw [type] at typed ⊢
  obtain ⟨id,rfl⟩ := IsEdge.eq typed
  rw [value?_edge] at shown
  cases shown
  rw [step,cloneSlot] at gives
  obtain ⟨copy,_,cloned,done⟩ := gives.bind_inv
  obtain ⟨rfl,rfl⟩ := done.pure_inv
  obtain ⟨memory',yields,advances,fresh⟩ :=
    sound.freshChild_yields alike follows known typed child cloned
  exact ⟨.strong copy,.node copy,memory',yields,advances,fresh,rfl,rfl⟩

theorem Sound.list_bodyClones (sound : Sound model) (alike : ClonesAlike model copier fuel)
    (member : cls ∈ model.classes) (inside : field ∈ cls.fields)
    (step : field.step = .cloneList) : BodyClones model copier fuel field freshChildren := by
  intro memory progress progress' scope expr data value slot follows typed shown children gives
  obtain ⟨name,kind⟩ := Model.Field.kind_of_cloneList step
  obtain ⟨target,known,rfl⟩ := sound.target member inside (by rw [kind]; rfl)
  have type : ValueType.of model field = .edges false (.of model target.name) := by
    rw [ValueType.of,kind,isWeak_of_owns (by rw [step]; rfl)]
  rw [type] at typed ⊢
  obtain ⟨items,rfl,each⟩ := typed
  cases shown
  rw [step,cloneSlot] at gives
  obtain ⟨copies,_,cloned,done⟩ := gives.bind_inv
  obtain ⟨rfl,rfl⟩ := done.pure_inv
  have edges := edges_of_typed each
  generalize items.filterMap Data.target? = ids at cloned edges
  subst edges
  obtain ⟨memory',yields,advances,fresh⟩ := sound.freshChildren_yield alike scope follows known
    (fun id listed => each _ (List.mem_map_of_mem listed)) cloned
  have listed : Yields ((expr.call .iter).act (cloneContext model copier fuel) scope) memory
      (.iterator (ids.map Data.strong)) memory := Expr.call_yields children rfl
  refine ⟨.vec (copies.map Data.strong),.list copies,memory',
    Expr.call_yields (Expr.map_iterator listed yields) rfl,advances,⟨_,rfl,?_⟩,?_,rfl⟩
  · exact List.forall_mem_map.mpr fresh
  · exact congrArg (some ∘ Value.list) (filterMap_edges false copies)

theorem external_bodyClones (keeps : ∀ handed ref, (copier handed ref).type = ref.type)
    (mode : field.policy.copyMode.Admissible field.kind field.policy.bound) {type : String}
    (step : field.step = .externalCopy type) :
    BodyClones model copier fuel field fun expr =>
      .apply .shared (.apply (.externalCopy type) expr) := by
  intro memory progress progress' scope expr data value slot follows typed shown held gives
  have kind := Model.Field.kind_of_externalCopy step mode
  have valueType : ValueType.of model field = .external type := by rw [ValueType.of,kind]
  rw [valueType] at typed ⊢
  obtain ⟨ref,rfl,rfl⟩ := typed
  cases shown
  rw [step] at gives
  obtain ⟨rfl,rfl⟩ : some (.external (copier progress.copied ref)) = slot ∧
      { progress with copied := progress.copied ++ [ref] } = progress' := by
    cases gives
    exact ⟨rfl,rfl⟩
  have copied : Yields (Function.act (cloneContext model copier fuel) (.externalCopy ref.type)
      (.external ref)) memory (.foreign (copier memory.copied ref))
      { memory with copied := memory.copied ++ [ref] } := by
    rw [Function.act,if_pos rfl]
    rfl
  refine ⟨.external (copier memory.copied ref),.external (copier memory.copied ref),_,
    Expr.apply_yields (Expr.apply_yields held copied) (.pure _ _),⟨?_,.refl _⟩,
    ⟨_,rfl,keeps _ _⟩,rfl,by rw [follows.copied]⟩
  exact ⟨follows.related,follows.classes,congrArg (· ++ [ref]) follows.copied⟩

/-- The expression makes a member that stands for `slot`. -/
def Produces (model : Model) (copier : Copier) (fuel : Nat) (scope : Scope) (expr : Expr)
    (memory : Memory) (progress : Progress) (field : Model.Field) (slot : Option Value)
    (flag : Bool) : Prop :=
  ∃ data memory', Yields (expr.act (cloneContext model copier fuel) scope) memory data memory' ∧
    Advances model memory memory' progress ∧ Represents model memory'.heap field data slot flag

variable {scope : Scope} {expr : Expr} {body : Expr → Expr} {slot : Option Value} {flag : Bool}

theorem bound_yields (context : Context) (scope : Scope) (name : String) (data : Data)
    (memory : Memory) :
    Yields ((Expr.variable name).act context (scope.bind name data)) memory data memory :=
  Expr.variable_yields (by simp [Scope.bind]) memory

theorem BodyClones.plain (clones : BodyClones model copier fuel field body)
    (storage : Storage.of field = .plain) (follows : Follows model memory progress) {data : Data}
    {value : Value} (typed : HasType (.of model) memory.heap (.of model field) data)
    (shown : data.value? = some value)
    (this : Yields (expr.act (cloneContext model copier fuel) scope) memory data memory)
    (gives : Gives (cloneSlot copier (cloneNode copier fuel) field field.step (some value)) progress
      slot progress') (flag : Bool) :
    Produces model copier fuel scope (body expr) memory progress' field slot flag := by
  obtain ⟨data',value',memory',yields,advances,typed',shown',rfl⟩ :=
    clones follows typed shown this gives
  exact ⟨data',memory',yields,advances,.plain storage typed' shown'⟩

theorem BodyClones.option (clones : BodyClones model copier fuel field body)
    (storage : Storage.of field = .option) (kept : field.step ≠ .reset)
    (follows : Follows model memory progress) {contents : Option Data}
    (typed : ∀ data ∈ contents, HasType (.of model) memory.heap (.of model field) data)
    (this : Yields (expr.act (cloneContext model copier fuel) scope) memory (.option contents)
      memory)
    (gives : Gives (cloneSlot copier (cloneNode copier fuel) field field.step
      (contents.bind Data.value?)) progress slot progress') (name : String) (flag : Bool) :
    Produces model copier fuel scope ((expr.call .asRef).map name (body (.variable name))) memory
      progress' field slot flag := by
  have borrowed : Yields ((expr.call .asRef).act (cloneContext model copier fuel) scope) memory
      (.option contents) memory := Expr.call_yields this rfl
  cases contents with
  | none =>
    rw [Option.bind_none,Arena.cloneSlot_none kept] at gives
    obtain ⟨rfl,rfl⟩ := gives.pure_inv
    exact ⟨_,memory,Expr.map_none borrowed _ _,.refl follows,.option storage typed⟩
  | some data =>
    obtain ⟨value,shown⟩ := (typed data rfl).value
    rw [Option.bind_some,shown] at gives
    obtain ⟨data',value',memory',yields,advances,typed',shown',rfl⟩ :=
      clones follows (typed data rfl) shown (bound_yields _ scope name data memory) gives
    refine ⟨.option (some data'),memory',Expr.map_some borrowed yields,advances,?_⟩
    rw [← shown',← Option.bind_some data' Data.value?]
    exact .option storage (by simpa using typed')

theorem BodyClones.cell (clones : BodyClones model copier fuel field body)
    (storage : Storage.of field = .cell) (follows : Follows model memory progress) {data : Data}
    {value : Value} (typed : HasType (.of model) memory.heap (.of model field) data)
    (shown : data.value? = some value)
    (this : Yields (expr.act (cloneContext model copier fuel) scope) memory (.cell (some data))
      memory)
    (gives : Gives (cloneSlot copier (cloneNode copier fuel) field field.step (some value)) progress
      slot progress') (name : String) :
    Produces model copier fuel scope (expr.mapCell name (body (.variable name))) memory progress'
      field slot true := by
  obtain ⟨data',value',memory',yields,advances,typed',shown',rfl⟩ :=
    clones follows typed shown (bound_yields _ scope name data memory) gives
  exact ⟨_,memory',Expr.mapCell_some this yields,advances,.filled storage typed' shown'⟩

/-- Owned children are in no cell, so two ways of storing them are left. -/
theorem BodyClones.owned (clones : BodyClones model copier fuel field body)
    (bound : field.policy.bound = true) (kept : field.step ≠ .reset)
    (follows : Follows model memory progress) {data : Data}
    (represents : Represents model memory.heap field data slot flag)
    (this : Yields (expr.act (cloneContext model copier fuel) scope) memory data memory)
    {slot' : Option Value}
    (gives : Gives (cloneSlot copier (cloneNode copier fuel) field field.step slot) progress slot'
      progress') (name : String) :
    Produces model copier fuel scope
      (match Storage.of field with
      | .option => (expr.call .asRef).map name (body (.variable name))
      | _ => body expr) memory progress' field slot' flag := by
  have noCell := storage_ne_cell bound
  cases represents with
  | plain storage typed shown =>
    rw [storage]
    exact clones.plain storage follows typed shown this gives flag
  | option storage typed =>
    rw [storage]
    exact clones.option storage kept follows typed this gives name flag
  | empty storage => exact absurd storage noCell
  | filled storage => exact absurd storage noCell

/-- A step resets a field only if its copy mode does. -/
theorem Represents.cloned {heap : Array Object} {data : Data}
    (represents : Represents model heap field data slot flag) : data.cloned? = some data := by
  cases represents with
  | plain storage typed shown => cases data <;> simp_all [Data.cloned?,Data.value?]
  | _ => rfl

/-- What is reset becomes empty, and is as if nothing had been assigned. -/
theorem reset_produces (lists : cls.Consistent) (inside : field ∈ cls.fields)
    (step : field.step = .reset) (follows : Follows model memory progress) :
    Produces model copier fuel scope (cloneExpr field .reset) memory progress field
      (initialSlot field) false := by
  have mode := field.step_eq_reset_iff.mp step
  unfold cloneExpr
  cases bound : field.policy.bound with
  | false =>
    have storage := storage_of_deferred bound
    rw [storage]
    exact ⟨.cell none,memory,.pure _ _,.refl follows,.empty storage⟩
  | true =>
    have storage : Storage.of field = .option := by simp [Storage.of,bound,mode]
    rw [storage,initialSlot_of_bound lists inside bound]
    exact ⟨.option none,memory,.pure _ _,.refl follows,.option storage (by simp)⟩

theorem clone_produces (follows : Follows model memory progress) {data : Data}
    (represents : Represents model memory.heap field data slot flag)
    (this : Yields (expr.act (cloneContext model copier fuel) scope) memory data memory) :
    Produces model copier fuel scope (expr.call .clone) memory progress field slot flag :=
  ⟨data,memory,Expr.call_yields this (.lift represents.cloned memory),.refl follows,represents⟩

theorem external_produces (lists : cls.Consistent) (inside : field ∈ cls.fields)
    (keeps : ∀ handed ref, (copier handed ref).type = ref.type)
    {type : String} (step : field.step = .externalCopy type)
    (follows : Follows model memory progress) {data : Data}
    (represents : Represents model memory.heap field data slot flag)
    (this : Yields ((Expr.member field.name).act (cloneContext model copier fuel) scope) memory data
      memory) {slot' : Option Value}
    (gives : Gives (cloneSlot copier (cloneNode copier fuel) field field.step slot) progress slot'
      progress') :
    Produces model copier fuel scope (cloneExpr field (.externalCopy type)) memory progress' field
      slot' flag := by
  have mode := lists.modes field inside
  have clones : BodyClones model copier fuel field fun expr =>
      .apply .shared (.apply (.externalCopy type) expr) := external_bodyClones keeps mode step
  have kept : field.step ≠ .reset := by simp [step]
  unfold cloneExpr
  cases represents with
  | plain storage typed shown =>
    rw [storage]
    obtain ⟨data',memory',yields,advances,represents⟩ := clones.plain storage follows typed shown
      (bound_yields _ scope "c" data memory) gives flag
    exact ⟨data',memory',Expr.block_yields this yields,advances,represents⟩
  | option storage typed =>
    rw [storage]
    exact clones.option storage kept follows typed this gives "c" flag
  | empty storage =>
    have absent := initialSlot_of_external lists inside
      (Model.Field.kind_of_externalCopy step mode)
    rw [absent,Arena.cloneSlot_none kept] at gives
    obtain ⟨rfl,rfl⟩ := gives.pure_inv
    rw [storage,← absent]
    exact ⟨.cell none,memory,Expr.mapCell_none this _ _,.refl follows,.empty storage⟩
  | filled storage typed shown =>
    rw [storage]
    exact clones.cell storage follows typed shown this gives "c"

/-- A clone expression does to a member what the arena does to its slot, for every way of storing
and every step that a resolved model has. -/
theorem Sound.cloneExpr_produces (sound : Sound model) (alike : ClonesAlike model copier fuel)
    (keeps : ∀ handed ref, (copier handed ref).type = ref.type) (member : cls ∈ model.classes)
    (inside : field ∈ cls.fields) (follows : Follows model memory progress) {data : Data}
    (held : scope.members.lookup field.name = some data)
    (represents : Represents model memory.heap field data slot flag) {slot' : Option Value}
    (gives : Gives (cloneSlot copier (cloneNode copier fuel) field field.step slot) progress slot'
      progress') :
    Produces model copier fuel scope (cloneExpr field field.step) memory progress' field slot'
      (flag && field.step != .reset) := by
  have lists := sound.consistent.classes cls member
  have this : Yields ((Expr.member field.name).act (cloneContext model copier fuel) scope) memory
      data memory := Expr.member_yields held memory
  by_cases reset : field.step = .reset
  · rw [reset] at gives ⊢
    obtain ⟨rfl,rfl⟩ := gives.pure_inv
    rw [bne_self_eq_false,Bool.and_false]
    exact reset_produces lists inside reset follows
  rw [bne_iff_ne.mpr reset,Bool.and_true]
  cases step : field.step with
  | reset => exact absurd step reset
  | copyValue =>
    rw [step] at gives
    obtain ⟨rfl,rfl⟩ := gives.pure_inv
    exact clone_produces follows represents this
  | shareReference =>
    rw [step] at gives
    obtain ⟨rfl,rfl⟩ := gives.pure_inv
    exact clone_produces follows represents this
  | cloneChild =>
    have bound := lists.bound_of_owns inside (by rw [step]; rfl)
    exact (sound.child_bodyClones alike member inside step).owned bound reset follows represents
      this gives "c"
  | cloneList =>
    have bound := lists.bound_of_owns inside (by rw [step]; rfl)
    exact (sound.list_bodyClones alike member inside step).owned bound reset follows represents
      this gives "l"
  | externalCopy type =>
    exact external_produces lists inside keeps step follows represents this gives

end

/-- The members of a clone are made one after another, as the arena fills the slots of the new
node. The induction is on the fields still to come. -/
theorem Sound.literal_clones (sound : Sound model) (alike : ClonesAlike model copier fuel)
    (keeps : ∀ handed ref, (copier handed ref).type = ref.type) {source : Node}
    (member : source.cls ∈ model.classes) {object : Object} {heap : Array Object}
    (stands : object.StandsFor model heap source) {rest : List Model.Field}
    (inside : ∀ field ∈ rest, field ∈ source.cls.fields) (follows : Follows model memory progress)
    (kept : ClassesStay heap memory.heap) {flags assigned : List Bool} {slots : List (Option Value)}
    (gives : Gives (Arena.cloneSlots copier (cloneNode copier fuel) source
      (rest.map fun field => ⟨field.name,field.step⟩) flags) progress (slots,assigned) progress') :
    ∃ members memory',
      Yields (literal (cloneContext model copier fuel) { members := object.members }
        (rest.map fun field => (field.name,cloneExpr field field.step))) memory members memory' ∧
      Advances model memory memory' progress' ∧
      members.map (·.1) = rest.map (·.name) ∧
      ∀ (index position : Nat) (field : Model.Field), rest[index]? = some field →
        source.cls.fields[position]? = some field →
        ∃ data, members[index]? = some (field.name,data) ∧
          Represents model memory'.heap field data slots[index]?.join
            (source.isAssigned position && field.step != .reset) := by
  have lists := sound.consistent.classes source.cls member
  induction rest generalizing memory progress flags slots with
  | nil =>
    rw [List.map_nil,Arena.cloneSlots] at gives
    obtain ⟨_,rfl⟩ := gives.pure_inv
    exact ⟨[],memory,.pure _ _,.refl follows,rfl,by simp⟩
  | cons field rest ih =>
    obtain ⟨position,target,slot,later,between,located,cloned,given,rfl⟩ :=
      Arena.cloneSlots_cons_inv gives
    obtain ⟨atField,named⟩ := (Arena.locate_eq_ok_iff lists.names).mp located
    have here := inside field List.mem_cons_self
    cases List.inj_on_of_nodup_map lists.names (List.mem_of_getElem? atField) here named
    obtain ⟨data,held,represents⟩ := stands.lookup lists atField
    obtain ⟨data',middle,yields,advances,represents'⟩ : Produces model copier fuel
        { members := object.members } (cloneExpr field field.step) memory between field slot
        (source.isAssigned position && field.step != .reset) :=
      sound.cloneExpr_produces alike keeps member here follows held (represents.mono kept) cloned
    obtain ⟨members,memory',yields',advances',names,each⟩ := ih
      (fun other listed => inside other (List.mem_cons_of_mem _ listed)) advances.follows
      (kept.trans advances.kept) given
    refine ⟨(field.name,data') :: members,memory',?_,advances.trans advances',?_,?_⟩
    · have entry : Yields (do return (field.name,← (cloneExpr field field.step).act
          (cloneContext model copier fuel) { members := object.members })) memory
          (field.name,data') middle := yields.bind (.pure _ _)
      rw [literal,List.map_cons,List.mapM_cons]
      exact entry.bind (yields'.bind (.pure _ _))
    · rw [List.map_cons,List.map_cons,names]
    · intro index place other atIndex atPlace
      cases index with
      | zero =>
        cases atIndex
        have both := located.symm.trans
          ((Arena.locate_eq_ok_iff lists.names).mpr ⟨atPlace,rfl⟩)
        obtain ⟨rfl,_⟩ := Prod.mk.inj (Except.ok.inj both)
        exact ⟨data',rfl,represents'.mono advances'.kept⟩
      | succ index => exact each index place other (by simpa using atIndex) atPlace

/-- Whatever the fuel, the emitted method clones what the arena clones. -/
theorem Sound.clonesAlike (sound : Sound model)
    (keeps : ∀ handed ref, (copier handed ref).type = ref.type) (fuel : Nat) :
    ClonesAlike model copier fuel := by
  induction fuel with
  | zero =>
    intro memory progress progress' id copy object _ _ gives
    cases gives
  | succ fuel alike =>
    intro memory progress progress' id copy object follows found gives
    rw [cloneNode] at gives
    obtain ⟨source,_,existing,gives⟩ := gives.bind_inv
    obtain ⟨atId,rfl⟩ := Arena.existing_inv existing
    obtain ⟨⟨slots,assigned⟩,after,cloned,added⟩ := gives.bind_inv
    cases added
    obtain ⟨node,atNode,stands⟩ := follows.related.found found
    cases Option.some.inj (atId.symm.trans atNode)
    have member := follows.classes id source atId
    have lists := sound.consistent.classes source.cls member
    have rules := cloned
    rw [lists.cloneRules] at rules
    obtain ⟨members,memory',yields,advances,names,each⟩ := sound.literal_clones alike keeps member
      stands (fun field listed => listed) follows (.refl _) rules
    have item : (SourceFile.of model).class? object.cls = some (.of model source.cls) := by
      rw [stands.cls]
      exact sound.item_of member
    have standing : (⟨source.cls.name,members⟩ : Object).StandsFor model memory'.heap
        ⟨source.cls,slots,assigned⟩ := by
      refine ⟨rfl,names,fun position field atField => ?_⟩
      obtain ⟨data,atMember,represents⟩ := each position position field atField atField
      refine ⟨data,atMember,?_⟩
      have flag := Arena.cloneSlots_assigned lists cloned atField
      rw [Arena.any_reset lists (List.mem_of_getElem? atField)] at flag
      rw [Node.slot,Node.isAssigned,flag]
      exact represents
    refine ⟨⟨source.cls.name,members⟩,memory',?_,stands.cls.symm,advances.follows.related.size.symm,
      ⟨?_,?_,advances.follows.copied⟩,advances.kept.trans (.push _ _)⟩
    · rw [SourceFile.clone]
      refine (Yields.lift item memory).bind ?_
      rw [ClassItem.clone,ClassItem.clones_of lists,List.map_map]
      exact yields.bind (.pure _ _)
    · exact advances.follows.related.push standing
    · exact advances.follows.classes.push member

end Source

end NodeModel
