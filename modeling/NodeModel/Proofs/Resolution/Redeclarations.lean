import NodeModel.Proofs.Hierarchy.Blocks
import NodeModel.Proofs.Resolution.Reports

/-! What becomes of each declared field when classes redeclare names. Every declaration of a class
is kept in its layout or reported once, and what is left out of a layout does not reach the classes
below. -/
namespace NodeModel

def Flattening.reportsOf (done : Flattening) (cls : String) : List Defect :=
  done.defects.filter (·.cls? = some cls)

namespace Schema

/-- What becomes of a field that `node` declares itself, behind the fields it inherits and its own
`earlier` ones: it is kept, or there is a report. -/
structure Fate (schema : Schema) (node : NodeDecl) (inherited : List FlatField)
    (earlier : List FieldDecl) (field : FieldDecl) (report : Option Defect) : Prop where
  reported : report.isSome = true ↔
    field.name ∈ inherited.map (·.decl.name) ∨ field.name ∈ earlier.map (·.name)
  fromAbove : ∀ prior ∈ inherited, prior.decl.name = field.name →
    ∃ above identical, schema.Ancestor node above ∧ prior.decl ∈ above.fields ∧
      prior.declaredIn = above.name ∧
      report = some (.redeclared node.name field.name (some above.name) identical) ∧
      (identical = true ↔ prior.decl.kind = field.kind ∧ prior.decl.policy = field.policy)
  fromWithin : field.name ∉ inherited.map (·.decl.name) → ∀ defect ∈ report,
    defect = .redeclared node.name field.name none false

def Inherits (schema : Schema) (layouts : List Layout) (node : NodeDecl)
    (inherited : List FlatField) : Prop :=
  (∃ above ∈ layouts, schema.Extends node above.node ∧ inherited = above.fields) ∨
    ((∀ parent, ¬ schema.Extends node parent) ∧ inherited = [])

/-- The declarations of a class, each with its report if there is one. Those without a report stand
in the layout behind the inherited fields, and there are no other reports. -/
structure Sorted (schema : Schema) (layout : Layout) (inherited : List FlatField)
    (fates : List (FieldDecl × Option Defect)) (reports : List Defect) : Prop where
  every : fates.map (·.1) = layout.node.fields
  each : ∀ (i : Nat) field report, fates[i]? = some (field,report) →
    schema.Fate layout.node inherited (layout.node.fields.take i) field report
  fields : layout.fields = inherited ++
    (fates.filter (·.2.isNone)).map fun fate => ⟨fate.1,layout.node.name⟩
  reports : reports = fates.filterMap (·.2)

/-- No declaration is lost or doubled on the way to the layouts. -/
structure Lossless (schema : Schema) (order : List NodeDecl) (done : Flattening) : Prop where
  classes : done.layouts.map (·.node) = order
  distinct : ∀ layout ∈ done.layouts, layout.fieldNames.Nodup
  grows : ∀ layout ∈ done.layouts, ∀ above ∈ done.layouts,
    schema.Extends layout.node above.node → above.fields <+: layout.fields
  own : ∀ layout ∈ done.layouts, ∃ inherited fates,
    schema.Inherits done.layouts layout.node inherited ∧
      schema.Sorted layout inherited fates (done.reportsOf layout.node.name)
  reports : done.defects = order.flatMap fun node => done.reportsOf node.name

end Schema

section Fates

variable (cls : String) (inherited : List FlatField)

def reportOn (earlier : List FieldDecl) (field : FieldDecl) : Option Defect :=
  match inherited.find? (·.decl.name == field.name) with
  | some prior => some (prior.clash cls field)
  | none =>
    if field.name ∈ earlier.map (·.name) then some (.redeclared cls field.name none false) else none

def fatesBehind (earlier : List FieldDecl) : List FieldDecl → List (FieldDecl × Option Defect)
  | [] => []
  | field :: rest =>
    (field,reportOn cls inherited earlier field) :: fatesBehind (earlier ++ [field]) rest

theorem fatesBehind_fields (earlier own : List FieldDecl) :
    (fatesBehind cls inherited earlier own).map (·.1) = own := by
  induction own generalizing earlier with
  | nil => rfl
  | cons field rest ih => rw [fatesBehind,List.map_cons,ih]

theorem fatesBehind_getElem? (earlier own : List FieldDecl) (i : Nat) :
    (fatesBehind cls inherited earlier own)[i]? =
      own[i]?.map fun field => (field,reportOn cls inherited (earlier ++ own.take i) field) := by
  induction own generalizing earlier i with
  | nil => rfl
  | cons field rest ih =>
    cases i with
    | zero => simp [fatesBehind]
    | succ i => simp [fatesBehind,ih]

theorem name_mem_iff_find? {fields : List FlatField} {name : String} :
    name ∈ fields.map (·.decl.name) ↔ (fields.find? (·.decl.name == name)).isSome = true := by
  simp [List.find?_isSome]

/-- A field that the class has declared before is no ancestor's. -/
theorem clash_own (field prior : FieldDecl) :
    FlatField.clash cls field ⟨prior,cls⟩ = .redeclared cls field.name none false := by
  simp [FlatField.clash]

theorem clash_inherited (field : FieldDecl) {prior : FlatField} (other : prior.declaredIn ≠ cls) :
    prior.clash cls field = .redeclared cls field.name (some prior.declaredIn)
      (prior.decl.kind = field.kind ∧ prior.decl.policy = field.policy) := by
  have apart : (prior.declaredIn != cls) = true := bne_iff_ne.mpr other
  simp only [FlatField.clash,apart,if_true,Bool.true_and,Bool.decide_and]
  rfl

theorem find?_added (added : List FieldDecl) (name : String) :
    (added.map (FlatField.mk · cls)).find? (·.decl.name == name) =
      (added.find? (·.name == name)).map (FlatField.mk · cls) := by
  rw [List.find?_map]
  rfl

variable {cls inherited}

/-- Looking a name up among the fields kept so far decides the same as looking it up among the
inherited fields and all earlier declarations, left out or not. -/
theorem appendOwn_fates {added earlier : List FieldDecl} (own : List FieldDecl)
    (same : ∀ name, name ∉ inherited.map (·.decl.name) →
      (name ∈ added.map (·.name) ↔ name ∈ earlier.map (·.name))) :
    appendOwn cls (inherited ++ added.map (⟨·,cls⟩)) own =
      (inherited ++ (added ++ ((fatesBehind cls inherited earlier own).filter
        (·.2.isNone)).map (·.1)).map (⟨·,cls⟩),
      (fatesBehind cls inherited earlier own).filterMap (·.2)) := by
  induction own generalizing added earlier with
  | nil => simp [appendOwn,fatesBehind]
  | cons field rest ih =>
    rw [appendOwn,fatesBehind,List.find?_append,find?_added]
    cases above : inherited.find? (·.decl.name == field.name) with
    | some prior =>
      have held : field.name ∈ inherited.map (·.decl.name) :=
        name_mem_iff_find?.mpr (by rw [above,Option.isSome_some])
      have report : reportOn cls inherited earlier field = some (prior.clash cls field) := by
        rw [reportOn,above]
      have next := @ih added (earlier ++ [field]) fun name free => by
        have other : name ≠ field.name := fun again => free (again ▸ held)
        simpa [other] using same name free
      simp [report,next]
    | none =>
      have free : field.name ∉ inherited.map (·.decl.name) := by
        rw [name_mem_iff_find?,above]
        exact Bool.false_ne_true
      by_cases again : field.name ∈ earlier.map (·.name)
      · have held := (same _ free).mpr again
        obtain ⟨prior,found⟩ : ∃ prior, added.find? (·.name == field.name) = some prior := by
          obtain ⟨prior,member,named⟩ := List.mem_map.mp held
          exact Option.isSome_iff_exists.mp (List.find?_isSome.mpr ⟨prior,member,by simp [named]⟩)
        have report : reportOn cls inherited earlier field =
            some (.redeclared cls field.name none false) := by
          rw [reportOn,above]
          exact if_pos again
        have next := @ih added (earlier ++ [field]) fun name apart => by
          rw [same name apart,List.map_append,List.mem_append,List.map_singleton,
            List.mem_singleton]
          exact ⟨.inl,Or.rec id (· ▸ again)⟩
        simp [found,report,clash_own,next]
      · have fresh : added.find? (·.name == field.name) = none := by
          refine List.find?_eq_none.mpr fun prior member named => again ((same _ free).mp ?_)
          exact beq_iff_eq.mp named ▸ List.mem_map_of_mem member
        have report : reportOn cls inherited earlier field = none := by
          rw [reportOn,above]
          exact if_neg again
        have next := @ih (added ++ [field]) (earlier ++ [field]) fun name apart => by
          simp only [List.map_append,List.mem_append,same name apart]
        simpa [fresh,report] using next

end Fates

namespace Schema

variable {schema : Schema} {hierarchy : Hierarchy} {node : NodeDecl} {chain : List NodeDecl}

/-- An inherited field comes from a proper ancestor, which has another name. -/
theorem inherited_from_above (names : schema.DistinctNames) (line : schema.HasChain node chain)
    {prior : FlatField} (member : prior ∈ flatten chain.dropLast) :
    ∃ above, schema.Ancestor node above ∧ prior.decl ∈ above.fields ∧
      prior.declaredIn = above.name ∧ prior.declaredIn ≠ node.name := by
  obtain ⟨above,inside,declared,named⟩ := flatten_declaredIn member
  have path := line.ancestor_of_mem inside
  refine ⟨above,path,declared,named,fun same => ?_⟩
  have own := eq_of_name names path.declared.2 path.declared.1 (named.symm.trans same)
  exact not_ancestor_self names line (own ▸ path)

theorem reportOn_fate (names : schema.DistinctNames) (line : schema.HasChain node chain)
    (earlier : List FieldDecl) (field : FieldDecl) :
    schema.Fate node (flatten chain.dropLast) earlier field
      (reportOn node.name (flatten chain.dropLast) earlier field) := by
  have distinct := flatten_nodup chain.dropLast
  cases found : (flatten chain.dropLast).find? (·.decl.name == field.name) with
  | none =>
    have free : field.name ∉ (flatten chain.dropLast).map (·.decl.name) := by
      rw [name_mem_iff_find?,found]
      exact Bool.false_ne_true
    constructor
    case reported =>
      simp only [reportOn,found,free,false_or]
      split <;> simp [*]
    case fromAbove =>
      exact fun prior member named => absurd (named ▸ List.mem_map_of_mem member) free
    case fromWithin =>
      intro _ defect told
      simp only [reportOn,found] at told
      split at told
      · exact (Option.some.inj told).symm
      · cases told
  | some first =>
    have held : field.name ∈ (flatten chain.dropLast).map (·.decl.name) :=
      name_mem_iff_find?.mpr (by rw [found,Option.isSome_some])
    have report : reportOn node.name (flatten chain.dropLast) earlier field =
        some (first.clash node.name field) := by
      rw [reportOn,found]
    rw [report]
    constructor
    case reported => simp [held]
    case fromAbove =>
      intro prior member named
      -- Names are distinct among the inherited fields, so the first one found is the only one.
      obtain rfl : prior = first := by
        have sameName : first.decl.name = field.name := by simpa using List.find?_some found
        exact List.inj_on_of_nodup_map distinct member (List.mem_of_find?_eq_some found)
          (named.trans sameName.symm)
      obtain ⟨above,path,declared,origin,other⟩ := inherited_from_above names line member
      refine ⟨above,_,path,declared,origin,?_,decide_eq_true_iff⟩
      rw [clash_inherited node.name field other,origin]
    case fromWithin => exact fun free => absurd held free

theorem layout_sorted (names : schema.DistinctNames) (line : schema.HasChain node chain) :
    schema.Sorted (schema.hierarchy.layout node) (flatten chain.dropLast)
      (fatesBehind node.name (flatten chain.dropLast) [] node.fields)
      (schema.hierarchy.redeclarations node) := by
  have run := @appendOwn_fates node.name (flatten chain.dropLast) [] [] node.fields (by simp)
  simp only [List.map_nil,List.append_nil,List.nil_append] at run
  constructor
  case every => exact fatesBehind_fields ..
  case each =>
    intro i field report found
    rw [fatesBehind_getElem?,Option.map_eq_some_iff] at found
    obtain ⟨_,_,same⟩ := found
    cases same
    exact reportOn_fate names line _ _
  case fields =>
    rw [schema.hierarchy.layout_fields names line,line.ends,List.dropLast_concat,flatten_concat,run,
      List.map_map]
    rfl
  case reports => rw [schema.hierarchy.redeclarations_eq names line,run]

theorem about_reportOn {cls : String} {inherited : List FlatField} {earlier : List FieldDecl}
    {field : FieldDecl} {defect : Defect} (told : defect ∈ reportOn cls inherited earlier field) :
    defect.cls? = some cls := by
  unfold reportOn at told
  split at told
  · cases told
    rfl
  · split at told
    · cases told
      rfl
    · cases told

theorem about_redeclarations (names : schema.DistinctNames) (member : node ∈ schema.preorder)
    {defect : Defect} (told : defect ∈ schema.hierarchy.redeclarations node) :
    defect.cls? = some node.name := by
  rw [(layout_sorted names (chain_of_mem names member)).reports,List.mem_filterMap] at told
  obtain ⟨⟨field,report⟩,inside,told⟩ := told
  cases told
  obtain ⟨i,found⟩ := List.mem_iff_getElem?.mp inside
  rw [fatesBehind_getElem?,Option.map_eq_some_iff] at found
  obtain ⟨_,_,same⟩ := found
  exact about_reportOn (Prod.mk.inj same).2

/-- The reports about a class are those that it gives rise to by itself. -/
theorem reportsOf_eq (names : schema.DistinctNames) (member : node ∈ schema.preorder) :
    (schema.hierarchy.laidOut schema.preorder).reportsOf node.name =
      schema.hierarchy.redeclarations node := by
  have tags : (schema.preorder.map fun node => some node.name).Nodup := by
    refine (preorder_nodup names).map_on fun left inside right inside' same => ?_
    exact eq_of_name names (preorder_subset names inside) (preorder_subset names inside')
      (Option.some.inj same)
  exact filter_flatMap_of_about (fun node : NodeDecl => some node.name) Defect.cls? tags member
    fun _ inside _ => about_redeclarations names inside

/-- The fields along the chain above a class are those of its superclass's layout. -/
theorem inherits_flatten (names : schema.DistinctNames) (line : schema.HasChain node chain) :
    schema.Inherits (schema.preorder.map schema.hierarchy.layout) node
      (flatten chain.dropLast) := by
  cases line with
  | top declared alone => exact .inr ⟨alone,rfl⟩
  | @extend _ parent chain link above =>
    have inside : parent ∈ schema.preorder := (mem_preorder names).mpr ⟨chain,above⟩
    refine .inl ⟨_,List.mem_map_of_mem inside,link,?_⟩
    rw [schema.hierarchy.layout_fields names above,List.dropLast_concat]

/-- Whatever the classes redeclare, the pass lays out every class in pre-order; each layout extends
that of the superclass, and each declaration is kept there or reported once. -/
theorem flattening_lossless (built : Hierarchy.build schema = .ok hierarchy) :
    schema.Preordered hierarchy.order ∧ schema.Lossless hierarchy.order hierarchy.flattening := by
  obtain ⟨graph,rfl⟩ := Hierarchy.build_eq_ok_iff.mp built
  have names := graph.names
  refine ⟨graph.preordered,?_⟩
  rw [Hierarchy.flattening_eq names]
  constructor
  case classes =>
    rw [Hierarchy.laidOut,List.map_map]
    exact List.map_id _
  case distinct =>
    intro layout laid
    obtain ⟨node,member,rfl⟩ := List.mem_map.mp laid
    exact flatten_nodup _
  case grows =>
    intro layout laid above laid' link
    obtain ⟨node,member,rfl⟩ := List.mem_map.mp laid
    obtain ⟨parent,member',rfl⟩ := List.mem_map.mp laid'
    have line := chain_of_mem names member'
    change schema.Extends node parent at link
    rw [schema.hierarchy.layout_fields names line,
      schema.hierarchy.layout_fields names (.extend link line),flatten_concat_eq]
    exact List.prefix_append ..
  case own =>
    intro layout laid
    obtain ⟨node,member,rfl⟩ := List.mem_map.mp laid
    have line := chain_of_mem names member
    have sorted := layout_sorted names line
    rw [← reportsOf_eq names member] at sorted
    exact ⟨_,_,inherits_flatten names line,sorted⟩
  case reports =>
    exact (List.flatMap_congr fun node member => reportsOf_eq names member).symm

/-- A class that redeclares an inherited field twice, once as it is, and repeats a field of its own;
a class below that redeclares both. -/
def overlapping : Schema where
  nodes := [
    { name := "Leaf"
      superclass := some "Inner"
      fields := [
        { name := "size", kind := .primitive .text },
        { name := "name", kind := .primitive .text, policy := { optional := true } },
        { name := "mark", kind := .primitive .flag }] },
    { name := "Node", fields := [{ name := "name", kind := .primitive .text }] },
    { name := "Inner"
      superclass := some "Node"
      fields := [
        { name := "name", kind := .primitive .text },
        { name := "size", kind := .primitive .integer },
        { name := "name", kind := .primitive .flag },
        { name := "size", kind := .primitive .integer }] }]

theorem flattening_lossless_overlapping :
    Hierarchy.build overlapping = .ok overlapping.hierarchy ∧
      overlapping.Preordered overlapping.hierarchy.order ∧
      overlapping.Lossless overlapping.hierarchy.order overlapping.hierarchy.flattening :=
  ⟨rfl,flattening_lossless (show Hierarchy.build overlapping = _ from rfl)⟩

example : overlapping.hierarchy.flattening.defects = [
    .redeclared "Inner" "name" (some "Node") true,
    .redeclared "Inner" "name" (some "Node") false,
    .redeclared "Inner" "size" none false,
    .redeclared "Leaf" "size" (some "Inner") false,
    .redeclared "Leaf" "name" (some "Node") false] := by decide

end Schema

end NodeModel
