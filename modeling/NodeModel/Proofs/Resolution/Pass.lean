import NodeModel.Proofs.Hierarchy.Layouts
import NodeModel.Proofs.Resolution.Externals
import NodeModel.Resolution.Basic

/-! The pass that resolves one class after the other, against what each class comes to by itself.
The pass checks a field only where it meets it first and looks up the binding of the superclass;
that it meets every inherited field and every superclass before is what its order guarantees. -/
namespace NodeModel

namespace Hierarchy

def resolvedFields (hierarchy : Hierarchy) (node : NodeDecl) : List Model.Field :=
  (hierarchy.layout node).fields.map (·.resolved)

/-- The binding in effect for a class: that of the topmost class of its chain with a pair. -/
def mangle? (hierarchy : Hierarchy) (chain : List NodeDecl) : Option Model.Mangle := do
  let owner ← chain.find? (·.indicators.mangle.isSome)
  let pair ← owner.indicators.mangle
  (pair.bind owner.name (hierarchy.resolvedFields owner)).1

def mangleDefects (hierarchy : Hierarchy) (layout : Layout) : List Defect :=
  match layout.node.indicators.mangle with
  | none => []
  | some pair =>
    if layout.chain.dropLast.any (·.indicators.mangle.isSome) then
      [.unboundMangle layout.name pair.nameField .alreadyDeclared]
    else (pair.bind layout.name (hierarchy.resolvedFields layout.node)).2

def resolveClass (hierarchy : Hierarchy) (layout : Layout) : Model.Class :=
  layout.resolved (layout.node.superclass.filter hierarchy.contains)
    (layout.fields.map (·.resolved)) (hierarchy.mangle? layout.chain)

/-- The defects found in one class: those of the fields it declares, then that of its pair. -/
def classDefects (hierarchy : Hierarchy) (externals : NameSet) (layout : Layout) : List Defect :=
  layout.ownFields.flatMap (·.defects hierarchy.schema externals) ++ hierarchy.mangleDefects layout

def ownFields (hierarchy : Hierarchy) (done : List NodeDecl) : List FlatField :=
  done.flatMap fun node => (hierarchy.layout node).ownFields

/-- What the pass has found out after some classes, on top of the defects it started with. -/
def findings (hierarchy : Hierarchy) (externals : NameSet) (found : List Defect)
    (done : List NodeDecl) : Findings where
  fields := ((hierarchy.ownFields done).map fun field => (field.key,field.resolved)).reverse
  mangles := (done.map fun node => (node.name,hierarchy.mangle? (hierarchy.chain node))).reverse
  confirmed := NameSet.ofList ((hierarchy.ownFields done).filterMap (·.confirmed? externals))
  defects := found ++ done.flatMap fun node => hierarchy.classDefects externals (hierarchy.layout node)
  warnings := (hierarchy.ownFields done).flatMap (·.warnings)

section Fields

theorem foldl_record (schema : Schema) (externals : NameSet) (fields : List FlatField)
    (findings : Findings) :
    fields.foldl (·.record schema externals ·) findings =
      { fields := (fields.map fun field => (field.key,field.resolved)).reverse ++ findings.fields
        mangles := findings.mangles
        confirmed := findings.confirmed.insertMany (fields.filterMap (·.confirmed? externals))
        defects := findings.defects ++ fields.flatMap (·.defects schema externals)
        warnings := findings.warnings ++ fields.flatMap (·.warnings) } := by
  induction fields generalizing findings with
  | nil => simp [NameSet.insertMany]
  | cons field rest ih =>
    have external : (field :: rest).filterMap (·.confirmed? externals) =
        (field.confirmed? externals).toList ++ rest.filterMap (·.confirmed? externals) := by
      cases known : field.confirmed? externals <;> simp [known]
    rw [List.foldl_cons,ih,external,NameSet.insertMany_append]
    simp [Findings.record]

theorem foldl_record_mangles (schema : Schema) (externals : NameSet) (fields : List FlatField)
    (findings : Findings) :
    (fields.foldl (·.record schema externals ·) findings).mangles = findings.mangles := by
  rw [foldl_record]

/-- A list of actions runs its first one, then the others. -/
theorem run_mapM_cons {σ α β : Type} (act : α → StateM σ β) (first : α) (rest : List α) (before : σ) :
    ((first :: rest).mapM act).run before =
      (((act first).run before).1 :: ((rest.mapM act).run ((act first).run before).2).1,
        ((rest.mapM act).run ((act first).run before).2).2) := by
  rw [List.mapM_cons]
  rfl

theorem run_mapM_append {σ α β : Type} (act : α → StateM σ β) (first second : List α) (before : σ) :
    ((first ++ second).mapM act).run before =
      (((first.mapM act).run before).1 ++ ((second.mapM act).run ((first.mapM act).run before).2).1,
        ((second.mapM act).run ((first.mapM act).run before).2).2) := by
  rw [List.mapM_append]
  rfl

variable (hierarchy : Hierarchy) (externals : NameSet)

theorem enterField_hit {field : FlatField} {resolved : Model.Field} {findings : Findings}
    (known : findings.fields.lookup field.key = some resolved) :
    (hierarchy.enterField externals field).run findings = (resolved,findings) := by
  simp only [enterField,StateT.run_bind,StateT.run_get,pure_bind,known]
  rfl

theorem enterField_miss {field : FlatField} {findings : Findings}
    (fresh : findings.fields.lookup field.key = none) :
    (hierarchy.enterField externals field).run findings =
      (field.resolved,findings.record hierarchy.schema externals field) := by
  simp only [enterField,StateT.run_bind,StateT.run_get,pure_bind,fresh]
  rfl

/-- Fields that are known already leave no trace. -/
theorem enterFields_hit (fields : List FlatField) (findings : Findings)
    (known : ∀ field ∈ fields, findings.fields.lookup field.key = some field.resolved) :
    (fields.mapM (hierarchy.enterField externals)).run findings =
      (fields.map (·.resolved),findings) := by
  induction fields with
  | nil => rfl
  | cons field rest ih =>
    have first := enterField_hit hierarchy externals (known field List.mem_cons_self)
    have others := ih fun other member => known other (List.mem_cons_of_mem _ member)
    rw [run_mapM_cons,first,others]
    rfl

/-- New fields are recorded one after the other. -/
theorem enterFields_miss (fields : List FlatField) (findings : Findings)
    (distinct : (fields.map (·.key)).Nodup)
    (fresh : ∀ field ∈ fields, findings.fields.lookup field.key = none) :
    (fields.mapM (hierarchy.enterField externals)).run findings =
      (fields.map (·.resolved),fields.foldl (·.record hierarchy.schema externals ·) findings) := by
  induction fields generalizing findings with
  | nil => rfl
  | cons field rest ih =>
    rw [List.map_cons,List.nodup_cons] at distinct
    have first := enterField_miss hierarchy externals (fresh field List.mem_cons_self)
    have others : ∀ other ∈ rest,
        (findings.record hierarchy.schema externals field).fields.lookup other.key = none := by
      intro other member
      have apart : other.key ≠ field.key := fun same =>
        distinct.1 (same ▸ List.mem_map_of_mem member)
      rw [Findings.record,List.lookup_cons,beq_false_of_ne apart]
      exact fresh other (List.mem_cons_of_mem _ member)
    rw [run_mapM_cons,first,ih _ distinct.2 others]
    rfl

end Fields

section Own

variable (hierarchy : Hierarchy) {node : NodeDecl} {chain : List NodeDecl}

/-- The own fields of a class are those it declares under names that are free on its chain. -/
theorem ownFields_eq_kept (names : hierarchy.schema.DistinctNames)
    (line : hierarchy.schema.HasChain node chain) :
    (hierarchy.layout node).ownFields =
      (kept ((flatten chain.dropLast).map (·.decl.name)) node.fields).map (⟨·,node.name⟩) := by
  have split := flatten_concat_eq chain.dropLast node
  rw [← line.ends] at split
  have inherited : (flatten chain.dropLast).filter (·.declaredIn == node.name) = [] := by
    rw [List.filter_eq_nil_iff]
    intro field member
    obtain ⟨other,above,_,named⟩ := flatten_declaredIn member
    have path := line.ancestor_of_mem above
    have apart : other.name ≠ node.name := by
      intro same
      obtain rfl := Schema.eq_of_name names path.declared.2 line.member same
      exact Schema.not_ancestor_self names line path
    simpa [named] using apart
  rw [Layout.ownFields,layout,chain_eq hierarchy names line,split,List.filter_append,inherited,
    List.nil_append,List.filter_eq_self]
  simp

/-- The fields of a class are the own fields of the classes on its chain. -/
theorem flatten_eq_ownFields (names : hierarchy.schema.DistinctNames)
    (line : hierarchy.schema.HasChain node chain) : flatten chain = hierarchy.ownFields chain := by
  induction line with
  | @top node member alone =>
    have own := ownFields_eq_kept hierarchy names (.top member alone)
    simp only [ownFields,List.flatMap_singleton,own]
    exact flatten_concat_eq [] node
  | extend link above ih =>
    have own := ownFields_eq_kept hierarchy names (.extend link above)
    rw [List.dropLast_concat] at own
    rw [flatten_concat_eq,← own,ih]
    simp [ownFields]

theorem mem_own {field : FlatField} (member : field ∈ (hierarchy.layout node).ownFields) :
    field ∈ (hierarchy.layout node).fields ∧ field.declaredIn = node.name := by
  obtain ⟨inside,owner⟩ := List.mem_filter.mp member
  exact ⟨inside,eq_of_beq owner⟩

theorem own_keys_nodup (node : NodeDecl) :
    ((hierarchy.layout node).ownFields.map (·.key)).Nodup := by
  have distinct := flatten_nodup (hierarchy.chain node)
  have names := (distinct.sublist (List.filter_sublist.map _) :
    ((hierarchy.layout node).ownFields.map (·.decl.name)).Nodup)
  refine List.Nodup.of_map Prod.snd ?_
  rwa [List.map_map]

/-- Two kept fields with one key are the same. -/
theorem eq_of_key (names : hierarchy.schema.DistinctNames) {done : List NodeDecl}
    (declared : done ⊆ hierarchy.schema.nodes) {field other : FlatField}
    (left : field ∈ hierarchy.ownFields done) (right : other ∈ hierarchy.ownFields done)
    (same : field.key = other.key) : field = other := by
  obtain ⟨a,inA,own⟩ := List.mem_flatMap.mp left
  obtain ⟨b,inB,own'⟩ := List.mem_flatMap.mp right
  have owner : a.name = b.name :=
    (mem_own hierarchy own).2.symm.trans ((congrArg Prod.fst same).trans (mem_own hierarchy own').2)
  obtain rfl := Schema.eq_of_name names (declared inA) (declared inB) owner
  exact List.inj_on_of_nodup_map (flatten_nodup _) (mem_own hierarchy own).1
    (mem_own hierarchy own').1 (congrArg Prod.snd same)

end Own

section Bindings

variable (hierarchy : Hierarchy) {node : NodeDecl} {chain : List NodeDecl}

/-- The binding of a class is inherited if some class above declares a pair, whatever became of
that pair. -/
theorem mangle?_concat (above : List NodeDecl) (node : NodeDecl) :
    hierarchy.mangle? (above ++ [node]) =
      if above.any (·.indicators.mangle.isSome) then hierarchy.mangle? above
      else node.indicators.mangle.bind fun pair =>
        (pair.bind node.name (hierarchy.resolvedFields node)).1 := by
  simp only [mangle?,List.find?_append]
  cases owner : above.find? (·.indicators.mangle.isSome) with
  | some top =>
    have holds : top.indicators.mangle.isSome = true := by simpa using List.find?_some owner
    have declared : above.any (·.indicators.mangle.isSome) = true :=
      List.any_eq_true.mpr ⟨top,List.mem_of_find?_eq_some owner,holds⟩
    simp [declared]
  | none =>
    have silent : above.any (·.indicators.mangle.isSome) = false := by
      simpa using List.find?_eq_none.mp owner
    cases own : node.indicators.mangle <;> simp [silent,own]

theorem mangle?_of_silent {above : List NodeDecl}
    (silent : above.any (·.indicators.mangle.isSome) = false) : hierarchy.mangle? above = none := by
  have absent : above.find? (·.indicators.mangle.isSome) = none := by
    simpa using silent
  simp [mangle?,absent]

/-- One step of the pass binds as the class by itself does. -/
theorem layout_mangle (names : hierarchy.schema.DistinctNames)
    (line : hierarchy.schema.HasChain node chain) :
    (hierarchy.layout node).mangle (hierarchy.resolvedFields node)
        (hierarchy.mangle? chain.dropLast) =
      (hierarchy.mangle? chain,hierarchy.mangleDefects (hierarchy.layout node)) := by
  have whole := mangle?_concat hierarchy chain.dropLast node
  rw [← line.ends] at whole
  have same := layout_chain hierarchy names line
  have own : (hierarchy.layout node).node = node := rfl
  simp only [Layout.mangle,mangleDefects,own,same]
  cases declared : node.indicators.mangle with
  | none =>
    cases above : chain.dropLast.any (·.indicators.mangle.isSome) with
    | true => simp [whole,above]
    | false => simp [whole,above,declared,mangle?_of_silent hierarchy above]
  | some pair =>
    cases above : chain.dropLast.any (·.indicators.mangle.isSome) with
    | true => simp [whole,above]
    | false =>
      simp only [whole,above,declared,Bool.false_eq_true,if_false,Option.bind_some]
      rfl

end Bindings

section Classes

open Schema

variable {schema : Schema} {externals : NameSet} {found : List Defect} {node : NodeDecl}
  {done rest : List NodeDecl}

/-- Every inherited field of the next class is known. -/
theorem inherited_known (names : schema.DistinctNames)
    (split : schema.preorder = done ++ node :: rest) {field : FlatField}
    (member : field ∈ schema.hierarchy.ownFields (schema.hierarchy.chain node).dropLast) :
    (schema.hierarchy.findings externals found done).fields.lookup field.key =
      some field.resolved := by
  obtain ⟨other,above,own⟩ := List.mem_flatMap.mp member
  have entered : field ∈ schema.hierarchy.ownFields done :=
    List.mem_flatMap.mpr ⟨other,dropLast_subset_done names split above,own⟩
  simp only [findings,← List.map_reverse]
  refine lookup_of_mem FlatField.key FlatField.resolved (List.mem_reverse.mpr entered) ?_
  intro twin inside same
  rw [eq_of_key schema.hierarchy names (done_subset names split) (List.mem_reverse.mp inside)
    entered same]

/-- None of the own fields of the next class is known. -/
theorem own_fresh (names : schema.DistinctNames)
    (split : schema.preorder = done ++ node :: rest) {field : FlatField}
    (member : field ∈ (schema.hierarchy.layout node).ownFields) :
    (schema.hierarchy.findings externals found done).fields.lookup field.key = none := by
  simp only [findings,← List.map_reverse]
  refine lookup_of_not_mem FlatField.key FlatField.resolved ?_
  intro other inside same
  obtain ⟨owner,before,own⟩ := List.mem_flatMap.mp (List.mem_reverse.mp inside)
  have named : owner.name = node.name :=
    (mem_own schema.hierarchy own).2.symm.trans
      ((congrArg Prod.fst same).trans (mem_own schema.hierarchy member).2)
  have equal := eq_of_name names (done_subset names split before)
    (chain_of_next names split).member named
  exact not_mem_done names split (equal ▸ before)

/-- The next class finds the binding of its superclass. -/
theorem inherited_mangle (names : schema.DistinctNames)
    (split : schema.preorder = done ++ node :: rest) :
    (schema.hierarchy.findings externals found done).inherited node =
      schema.hierarchy.mangle? (schema.hierarchy.chain node).dropLast := by
  have line := chain_of_next names split
  have declared := done_subset names split
  simp only [Findings.inherited,findings,← List.map_reverse]
  generalize shape : schema.hierarchy.chain node = chain at line
  cases line with
  | top member alone =>
    cases named : node.superclass with
    | none => rfl
    | some superclass =>
      -- An external root is no class, so it has no entry.
      have absent := lookup_of_not_mem NodeDecl.name
        (fun other => schema.hierarchy.mangle? (schema.hierarchy.chain other))
        (show ∀ other ∈ done.reverse, other.name ≠ superclass from fun other before same =>
          alone other ⟨member,declared (List.mem_reverse.mp before),by rw [named,same]⟩)
      rw [Option.bind_some,absent]
      rfl
  | @extend _ parent chain link above =>
    have entry := lookup_of_mem NodeDecl.name
      (fun other => schema.hierarchy.mangle? (schema.hierarchy.chain other))
      (List.mem_reverse.mpr (superclass_before names split link))
      (fun other before same => by
        rw [eq_of_name names (declared (List.mem_reverse.mp before)) link.2.1 same])
    rw [link.2.2,Option.bind_some,entry,chain_eq schema.hierarchy names above,
      List.dropLast_concat,Option.join_some]

theorem findings_next (node : NodeDecl) :
    { (schema.hierarchy.layout node).ownFields.foldl (·.record schema externals ·)
        (schema.hierarchy.findings externals found done) with
      mangles := (node.name,schema.hierarchy.mangle? (schema.hierarchy.chain node)) ::
        (schema.hierarchy.findings externals found done).mangles
      defects := ((schema.hierarchy.layout node).ownFields.foldl (·.record schema externals ·)
        (schema.hierarchy.findings externals found done)).defects ++
          schema.hierarchy.mangleDefects (schema.hierarchy.layout node) } =
      schema.hierarchy.findings externals found (done ++ [node]) := by
  have external (names more : List String) : NameSet.ofList (names ++ more) =
      (NameSet.ofList names).insertMany more := NameSet.insertMany_append {} names more
  rw [foldl_record]
  simp [findings,ownFields,classDefects,external,hierarchy]

/-- Of the fields of the next class, only its own ones are checked. -/
theorem enterFields_next (names : schema.DistinctNames)
    (split : schema.preorder = done ++ node :: rest) :
    ((schema.hierarchy.layout node).fields.mapM (schema.hierarchy.enterField externals)).run
        (schema.hierarchy.findings externals found done) =
      (schema.hierarchy.resolvedFields node,
        (schema.hierarchy.layout node).ownFields.foldl (·.record schema externals ·)
          (schema.hierarchy.findings externals found done)) := by
  have line := chain_of_next names split
  have inherited := enterFields_hit schema.hierarchy externals
    (schema.hierarchy.ownFields (schema.hierarchy.chain node).dropLast)
    (schema.hierarchy.findings externals found done) fun _ => inherited_known names split
  have own := enterFields_miss schema.hierarchy externals (schema.hierarchy.layout node).ownFields
    (schema.hierarchy.findings externals found done) (own_keys_nodup schema.hierarchy node)
    fun _ => own_fresh names split
  have parts : (schema.hierarchy.layout node).fields =
      schema.hierarchy.ownFields (schema.hierarchy.chain node).dropLast ++
        (schema.hierarchy.layout node).ownFields := by
    rw [layout_fields schema.hierarchy names line,flatten_eq_ownFields schema.hierarchy names line]
    nth_rewrite 1 [line.ends]
    simp [ownFields]
  rw [resolvedFields,parts,run_mapM_append,inherited,own,List.map_append]
  rfl

theorem enterPair_run (layout : Layout) (fields : List Model.Field) (before : Findings) :
    (enterPair layout fields).run before =
      ((layout.mangle fields (before.inherited layout.node)).1,
        { before with
          mangles := (layout.name,(layout.mangle fields (before.inherited layout.node)).1) ::
            before.mangles
          defects := before.defects ++
            (layout.mangle fields (before.inherited layout.node)).2 }) := rfl

theorem enterClass_run (hierarchy : Hierarchy) (layout : Layout) (before : Findings) :
    (hierarchy.enterClass externals layout).run before =
      let checked := (layout.fields.mapM (hierarchy.enterField externals)).run before
      let bound := (enterPair layout checked.1).run checked.2
      (layout.resolved (layout.node.superclass.filter hierarchy.contains) checked.1 bound.1,
        bound.2) := rfl

/-- The pass resolves the next class as the class by itself. -/
theorem enterClass_next (names : schema.DistinctNames)
    (split : schema.preorder = done ++ node :: rest) :
    (schema.hierarchy.enterClass externals (schema.hierarchy.layout node)).run
        (schema.hierarchy.findings externals found done) =
      (schema.hierarchy.resolveClass (schema.hierarchy.layout node),
        schema.hierarchy.findings externals found (done ++ [node])) := by
  have line : schema.HasChain node (schema.hierarchy.chain node) := chain_of_next names split
  let checked := (schema.hierarchy.layout node).ownFields.foldl (·.record schema externals ·)
    (schema.hierarchy.findings externals found done)
  have unchanged : checked.mangles =
      (schema.hierarchy.findings externals found done).mangles := foldl_record_mangles ..
  have inherited : checked.inherited (schema.hierarchy.layout node).node =
      schema.hierarchy.mangle? (schema.hierarchy.chain node).dropLast := by
    rw [← inherited_mangle names split,Findings.inherited,unchanged]
    rfl
  have bound : (enterPair (schema.hierarchy.layout node)
      (schema.hierarchy.resolvedFields node)).run checked =
        (schema.hierarchy.mangle? (schema.hierarchy.chain node),
          schema.hierarchy.findings externals found (done ++ [node])) := by
    rw [enterPair_run,inherited,layout_mangle schema.hierarchy names line,unchanged,
      ← findings_next node]
    rfl
  rw [enterClass_run,enterFields_next names split]
  exact congrArg (fun after : Option Model.Mangle × Findings => (Layout.resolved _ _ _ after.1,after.2))
    bound

/-- The whole pass, from any point on. -/
theorem enterClasses_run (names : schema.DistinctNames) (split : schema.preorder = done ++ rest) :
    ((rest.map schema.hierarchy.layout).mapM (schema.hierarchy.enterClass externals)).run
        (schema.hierarchy.findings externals found done) =
      ((rest.map schema.hierarchy.layout).map schema.hierarchy.resolveClass,
        schema.hierarchy.findings externals found (done ++ rest)) := by
  induction rest generalizing done with
  | nil =>
    rw [List.append_nil]
    rfl
  | cons node rest ih =>
    have later := ih (show schema.preorder = (done ++ [node]) ++ rest by simp [split])
    rw [List.map_cons,run_mapM_cons,enterClass_next names split,later]
    simp

end Classes

end Hierarchy

namespace Schema

variable {schema : Schema} {externals : NameSet}

/-- The external types that some field of a layout uses, in order and once each. -/
def usedExternals (externals : NameSet) (layouts : List Layout) : List String :=
  (NameSet.ofList ((layouts.flatMap (·.fields)).filterMap (·.confirmed? externals))).names

/-- Inherited fields add nothing to the own ones of all classes. -/
theorem mem_ownFields_iff (names : schema.DistinctNames) (field : FlatField) :
    field ∈ schema.hierarchy.ownFields schema.preorder ↔
      field ∈ schema.hierarchy.layouts.flatMap (·.fields) := by
  simp only [Hierarchy.ownFields,Hierarchy.layouts,List.mem_flatMap,List.mem_map,
    exists_exists_and_eq_and]
  constructor
  · rintro ⟨node,reached,own⟩
    exact ⟨node,reached,(Hierarchy.mem_own schema.hierarchy own).1⟩
  · rintro ⟨node,reached,inside⟩
    obtain ⟨chain,line⟩ := (mem_preorder names).mp reached
    rw [Hierarchy.layout_fields schema.hierarchy names line,
      Hierarchy.flatten_eq_ownFields schema.hierarchy names line] at inside
    obtain ⟨other,above,own⟩ := List.mem_flatMap.mp inside
    obtain ⟨part,line',_⟩ := line.prefix_of_mem above
    exact ⟨other,(mem_preorder names).mpr ⟨part,line'⟩,own⟩

theorem confirmed_eq (names : schema.DistinctNames) (found : List Defect) :
    (schema.hierarchy.findings externals found schema.preorder).confirmed.names =
      usedExternals externals schema.hierarchy.layouts := by
  refine congrArg NameSet.names (NameSet.ofList_congr fun name => ?_)
  simp only [List.mem_filterMap,mem_ownFields_iff names]

theorem resolution_run {hierarchy : Hierarchy} (built : Hierarchy.build schema = .ok hierarchy) :
    schema.resolution externals =
      let after := (hierarchy.flattening.layouts.mapM (hierarchy.enterClass externals)).run
        { defects := hierarchy.flattening.defects }
      { outcome :=
          if after.2.defects.isEmpty then
            .ok { root := schema.root, externals := after.2.confirmed.names, classes := after.1 }
          else .error after.2.defects
        warnings := after.2.warnings } := by
  rw [resolution,built]
  rfl

/-- What a run comes to, class by class, once the hierarchy is built. -/
theorem resolution_eq (names : schema.DistinctNames)
    (built : Hierarchy.build schema = .ok schema.hierarchy) :
    schema.resolution externals =
      let defects := schema.hierarchy.flattenDefects ++
        schema.hierarchy.layouts.flatMap (schema.hierarchy.classDefects externals)
      { outcome :=
          if defects.isEmpty then
            .ok { root := schema.root
                  externals := usedExternals externals schema.hierarchy.layouts
                  classes := schema.hierarchy.layouts.map schema.hierarchy.resolveClass }
          else .error defects
        warnings := (schema.hierarchy.layouts.flatMap (·.ownFields)).flatMap (·.warnings) } := by
  let found := schema.hierarchy.flattenDefects
  have start : ({ defects := found } : Findings) =
      schema.hierarchy.findings externals found [] := by
    simp [Hierarchy.findings,Hierarchy.ownFields,NameSet.ofList,NameSet.insertMany]
  have run : (schema.hierarchy.layouts.mapM (schema.hierarchy.enterClass externals)).run
      { defects := found } = (schema.hierarchy.layouts.map schema.hierarchy.resolveClass,
        schema.hierarchy.findings externals found schema.preorder) := by
    rw [start]
    exact Hierarchy.enterClasses_run names (List.nil_append _).symm
  have layouts : schema.hierarchy.flattening.layouts = schema.hierarchy.layouts := by
    rw [Hierarchy.flattening_eq names]
    rfl
  have defects : schema.hierarchy.flattening.defects = found := by
    rw [Hierarchy.flattening_eq names]
    rfl
  have collected : (schema.hierarchy.findings externals found schema.preorder).defects =
      found ++ schema.hierarchy.layouts.flatMap (schema.hierarchy.classDefects externals) := by
    rw [Hierarchy.layouts,List.flatMap_map]
    rfl
  have warned : (schema.hierarchy.findings externals found schema.preorder).warnings =
      (schema.hierarchy.layouts.flatMap (·.ownFields)).flatMap (·.warnings) := by
    rw [Hierarchy.layouts,List.flatMap_map]
    rfl
  rw [resolution_run built,layouts,defects,run]
  simp only [collected,warned,confirmed_eq names]
  rfl

end Schema

end NodeModel
