import NodeModel.Proofs.Arena.Construction
import NodeModel.Proofs.Source.Reading

/-! Constructors: on arguments of the right types the emitted constructor and the arena make an
object and a node that stand for each other. -/
namespace NodeModel

section

variable {α β : Type} {name : α → String} {items : List α} {results : List β}

theorem lookup_zip {R : α → β → Prop} (each : List.Forall₂ R items results)
    (distinct : (items.map name).Nodup) {item : α} (member : item ∈ items) :
    ∃ result, ((items.map name).zip results).lookup (name item) = some result ∧
      R item result := by
  induction each with
  | nil => simp at member
  | @cons first result items results holds _ ih =>
    rw [List.map_cons,List.nodup_cons] at distinct
    rw [List.map_cons,List.zip_cons_cons]
    rcases List.mem_cons.mp member with rfl | later
    · exact ⟨result,List.lookup_cons_self,holds⟩
    · obtain ⟨found,same,related⟩ := ih distinct.2 later
      have other : name item ≠ name first := by
        intro equal
        exact distinct.1 (equal ▸ List.mem_map_of_mem later)
      refine ⟨found,?_,related⟩
      rw [List.lookup_cons,beq_eq_false_iff_ne.mpr other]
      exact same

theorem getElem?_of_forall₂ {R : α → β → Prop} (each : List.Forall₂ R items results)
    {position : Nat} {item : α} (found : items[position]? = some item) :
    ∃ result, results[position]? = some result ∧ R item result := by
  induction each generalizing position with
  | nil => simp at found
  | @cons _ result _ _ holds _ ih =>
    cases position with
    | zero =>
      cases found
      exact ⟨result,rfl,holds⟩
    | succ position => exact ih (by simpa using found)

theorem lookup_zip_map {γ : Type} (f : β → γ) (names : List String) (results : List β)
    (key : String) :
    (names.zip (results.map f)).lookup key = ((names.zip results).lookup key).map f := by
  induction names generalizing results with
  | nil => rfl
  | cons first names ih =>
    cases results with
    | nil => rfl
    | cons result results =>
      rw [List.map_cons,List.zip_cons_cons,List.zip_cons_cons,List.lookup_cons,List.lookup_cons]
      cases key == first with
      | true => rfl
      | false => exact ih results

end

namespace Source

open Arena (NodeId Node Value initialSlot)

variable {model : Model} {cls : Model.Class} {heap : Array Object}

def Param.Accepts (file : SourceFile) (heap : Array Object) (param : Param) (data : Data) : Prop :=
  if param.optional then
    ∃ contents, data = .option contents ∧ ∀ held ∈ contents, HasType file heap param.type held
  else HasType file heap param.type data

theorem HasType.contents_eq {file : SourceFile} {type : ValueType} {data : Data}
    (typed : HasType file heap type data) : data.contents = data.value? := by
  cases type with
  | edge weak target =>
    obtain ⟨id,rfl⟩ := IsEdge.eq typed
    cases weak <;> rfl
  | edges weak target =>
    obtain ⟨items,rfl,_⟩ := typed
    rfl
  | _ =>
    obtain ⟨value,rfl,_⟩ := typed
    rfl

theorem Param.Accepts.takes (sound : Sound model) {arena : Arena}
    (related : Related model heap arena.nodes) (classes : Classes model arena.nodes)
    (member : cls ∈ model.classes) {field : Model.Field} (inside : field ∈ cls.fields)
    {data : Data} (accepted : (paramOf model field).Accepts (.of model) heap data) :
    arena.Takes cls ⟨field.name,field.policy.optional⟩ data.contents := by
  have lists := sound.consistent.classes cls member
  obtain ⟨position,atField⟩ := List.getElem?_of_mem inside
  have fits {held : Data} {value : Value} (typed : HasType (.of model) heap (.of model field) held)
      (shown : held.value? = some value) :
      value.Fits (fun name ref => name = ref.type) arena.nodes field.kind :=
    ((sound.typed_iff related classes member inside value).mp ⟨held,typed,shown⟩).1
  refine ⟨position,field,(Arena.locate_eq_ok_iff lists.names).mpr ⟨atField,rfl⟩,?_⟩
  cases optional : field.policy.optional with
  | true =>
    rw [Param.Accepts,paramOf,optional] at accepted
    obtain ⟨contents,rfl,typed⟩ := accepted
    refine ⟨fun _ => rfl,fun value shown => ?_⟩
    obtain ⟨held,present,shown⟩ := Option.bind_eq_some_iff.mp shown
    exact fits (typed held present) shown
  | false =>
    rw [Param.Accepts,paramOf,optional] at accepted
    have typed : HasType (.of model) heap (.of model field) data := accepted
    rw [typed.contents_eq]
    refine ⟨fun absent => ?_,fun value shown => fits typed shown⟩
    obtain ⟨value,shown⟩ := typed.value
    simp [shown] at absent

/-- A member starts with what its argument stands for, or empty if there is none. -/
theorem initialExpr_yields (lists : cls.Consistent) (context : Context) (memory : Memory)
    {arguments : List Data}
    (accepted : List.Forall₂ (fun field => (paramOf model field).Accepts (.of model) heap)
      (cls.fields.filter (·.policy.bound)) arguments)
    {field : Model.Field} (inside : field ∈ cls.fields) :
    let given := ((cls.fields.filter (·.policy.bound)).map (·.name)).zip arguments
    ∃ data, Yields ((initialExpr field).act context { params := given }) memory data memory ∧
      Represents model heap field data
        (((given.lookup field.name).bind Data.contents).or (initialSlot field)) false := by
  intro given
  have distinct : ((cls.fields.filter (·.policy.bound)).map (·.name)).Nodup :=
    lists.param_names ▸ lists.params_nodup
  cases bound : field.policy.bound with
  | false =>
    have absent : field.name ∉ (cls.fields.filter (·.policy.bound)).map (·.name) :=
      lists.param_names ▸ lists.not_mem_params inside bound
    rw [show given.lookup field.name = none from lookup_zip_absent absent arguments]
    have cell := storage_of_deferred bound
    refine ⟨.cell none,?_,.empty cell⟩
    rw [initialExpr,cell]
    exact .pure _ _
  | true =>
    obtain ⟨data,found,accepts⟩ := lookup_zip accepted distinct
      (List.mem_filter.mpr ⟨inside,bound⟩)
    have param : Yields ((Expr.param field.name).act context { params := given }) memory data
        memory := Expr.param_yields found memory
    rw [show given.lookup field.name = some data from found,
      initialSlot_of_bound lists inside bound,Option.or_none]
    simp only [Option.bind_some]
    unfold initialExpr
    cases optional : field.policy.optional with
    | true =>
      rw [Param.Accepts,paramOf,optional] at accepts
      obtain ⟨contents,rfl,typed⟩ := accepts
      have storage : Storage.of field = .option := by simp [Storage.of,bound,optional]
      rw [storage]
      exact ⟨_,param,.option storage typed⟩
    | false =>
      rw [Param.Accepts,paramOf,optional] at accepts
      have typed : HasType (.of model) heap (.of model field) data := accepts
      rw [typed.contents_eq]
      cases storage : Storage.of field with
      | plain =>
        obtain ⟨value,shown⟩ := typed.value
        rw [shown]
        exact ⟨data,param,.plain storage typed shown⟩
      | option =>
        refine ⟨_,Expr.apply_yields param (.pure _ _),?_⟩
        have held : ∀ held ∈ some data, HasType (.of model) heap (.of model field) held := by
          simpa using typed
        exact .option storage held
      | cell => exact absurd storage (storage_ne_cell bound)

theorem literal_yields {context : Context} {scope : Scope} {memory : Memory}
    {expr : Model.Field → Expr} {P : Model.Field → Data → Prop} {fields : List Model.Field}
    (each : ∀ field ∈ fields, ∃ data, Yields ((expr field).act context scope) memory data memory ∧
      P field data) :
    ∃ members, Yields (literal context scope (fields.map fun field => (field.name,expr field)))
        memory members memory ∧
      List.Forall₂ (fun field entry => entry.1 = field.name ∧ P field entry.2) fields members := by
  induction fields with
  | nil => exact ⟨[],.pure _ _,.nil⟩
  | cons field fields ih =>
    obtain ⟨data,first,holds⟩ := each field List.mem_cons_self
    obtain ⟨members,rest,holds'⟩ := ih fun other later => each other (List.mem_cons_of_mem _ later)
    refine ⟨(field.name,data) :: members,?_,.cons ⟨rfl,holds⟩ holds'⟩
    have entry : Yields (do return (field.name,← (expr field).act context scope)) memory
        (field.name,data) memory := first.bind (.pure _ _)
    rw [literal,List.map_cons,List.mapM_cons]
    exact entry.bind (rest.bind (.pure _ _))

/-- The object made by a constructor stands for the node that the arena adds. -/
theorem Sound.construct_yields (sound : Sound model) (context : Context) {memory : Memory}
    {arena : Arena} (same : arena.model = model)
    (related : Related model memory.heap arena.nodes) (classes : Classes model arena.nodes)
    (member : cls ∈ model.classes) {arguments : List Data}
    (accepted : List.Forall₂ (Param.Accepts (.of model) memory.heap)
      (ClassItem.of model cls).params arguments) :
    ∃ object grown,
      Yields ((ClassItem.of model cls).construct context arguments) memory object memory ∧
      arena.construct cls.name (arguments.map Data.contents) = .ok (memory.heap.size,grown) ∧
      Related model (memory.heap.push object) grown.nodes := by
  have lists := sound.consistent.classes cls member
  have arity := accepted.length_eq
  rw [ClassItem.params_of lists] at accepted
  have accepts := List.forall₂_map_left_iff.mp accepted
  -- The arena takes what the arguments stand for.
  have takes : List.Forall₂ (arena.Takes cls) cls.params (arguments.map Data.contents) := by
    rw [lists.params]
    refine List.forall₂_map_left_iff.mpr (List.forall₂_map_right_iff.mpr ?_)
    refine ((List.forall₂_and_left _ _).mpr ⟨fun _ listed => listed,accepts⟩).imp ?_
    rintro field data ⟨listed,accepts⟩
    exact Param.Accepts.takes sound related classes member (List.mem_of_mem_filter listed) accepts
  obtain ⟨slots,filled,length,slot⟩ := Arena.fillSlots_eq_ok lists.names takes lists.params_nodup
    (cls.fields.map initialSlot) (by simp)
  -- The members are evaluated one by one.
  obtain ⟨members,evaluated,stored⟩ := literal_yields fun field inside =>
    initialExpr_yields lists context memory accepts inside
  have aligned := stored.length_eq
  have node : arena.construct cls.name (arguments.map Data.contents) = _ :=
    Arena.construct_eq_ok_iff.mpr ⟨cls,slots,same ▸ sound.class?_eq_some member,
      takes.length_eq.symm,filled,related.size.symm,rfl⟩
  refine ⟨⟨cls.name,members⟩,_,?_,node,related.push ⟨rfl,?_,?_⟩⟩
  · unfold ClassItem.construct
    rw [if_pos arity.symm]
    have params : (ClassItem.of model cls).params.map (·.field) =
        (cls.fields.filter (·.policy.bound)).map (·.name) := by
      rw [ClassItem.params_of lists,List.map_map]
      rfl
    simp only [params]
    exact evaluated.bind (.pure _ _)
  · have named : List.Forall₂ (· = ·) (members.map (·.1)) (cls.fields.map (·.name)) :=
      List.forall₂_map_left_iff.mpr (List.forall₂_map_right_iff.mpr
        (stored.flip.imp fun _ _ entry => entry.1))
    rwa [List.forall₂_eq_eq_eq] at named
  · intro position field atField
    obtain ⟨⟨name,data⟩,atMember,rfl,represents⟩ := getElem?_of_forall₂ stored atField
    refine ⟨data,atMember,?_⟩
    have given := slot position field atField
    rw [lists.param_names,lookup_zip_map,List.getElem?_map,atField] at given
    have clear : (List.replicate slots.length false)[position]?.getD false = false := by
      rw [List.getElem?_replicate]
      split <;> rfl
    rw [Arena.Node.slot,Arena.Node.isAssigned,given,clear,← Option.bind_id_eq_join,Option.bind_map]
    exact represents

end Source

end NodeModel
