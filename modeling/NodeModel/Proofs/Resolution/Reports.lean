import NodeModel.Proofs.Resolution.Acceptance

/-! What a run of the resolver reports, and in which order. Every defect is read off the class that
declares the field or the pair; that inherited fields come by again in each class below does not
show. -/
namespace NodeModel

def Resolution.defects (resolution : Resolution) : List Defect :=
  match resolution.outcome with
  | .ok _ => []
  | .error defects => defects

namespace Defect

def cls? : Defect → Option String
  | .unresolvedType cls .. | .copyMode cls .. | .unboundMangle cls .. | .redeclared cls .. => some cls
  | _ => none

def field? : Defect → Option String
  | .unresolvedType _ field _ | .copyMode _ field .. | .unboundMangle _ field _
  | .redeclared _ field .. => some field
  | _ => none

def ofPair : Defect → Bool
  | .unboundMangle .. => true
  | _ => false

end Defect

instance CopyMode.decidableAdmissible (kind : FieldKind) (bound : Bool) (mode : CopyMode) :
    Decidable (mode.Admissible kind bound) :=
  decidable_of_iff _ (CopyMode.defect?_eq_none kind bound mode)

instance FieldKind.decidableKnown (schema : Schema) (externals : NameSet) (kind : FieldKind) :
    Decidable (kind.Known schema externals) :=
  decidable_of_iff _ (FlatField.unknownType?_eq_none schema externals ⟨{ name := "", kind },""⟩)

def FieldKind.typeName (kind : FieldKind) : String := (kind.target?.or kind.external?).getD ""

/-- Why a mode that is not admissible is not. -/
def CopyMode.objection (kind : FieldKind) (mode : CopyMode) : CopyDefect :=
  if mode = .external then .notExternal
  else if kind.external?.isSome then .deepExternal
  else .deepDeferred

namespace FieldDecl

def mode (field : FieldDecl) : CopyMode :=
  field.policy.copyMode.getD (.usual field.kind field.policy.bound)

/-- First the type, then the copy mode. -/
def report (schema : Schema) (externals : NameSet) (cls : String) (field : FieldDecl) : List Defect :=
  (if field.kind.Known schema externals then []
    else [.unresolvedType cls field.name field.kind.typeName]) ++
  (if field.mode.Admissible field.kind field.policy.bound then []
    else [.copyMode cls field.name field.mode (field.mode.objection field.kind)])

def cautions (cls : String) (field : FieldDecl) : List Warning :=
  (if field.policy.visitable = true ∧ field.kind.isReference = true ∧ field.mode = .share then
    [⟨cls,field.name,.sharedVisit⟩] else []) ++
  (if field.policy.bound = true ∧ field.policy.optional = false ∧ field.mode = .reset then
    [⟨cls,field.name,.lostOnCopy⟩] else [])

end FieldDecl

namespace NodeDecl

/-- The fields of a class that no class above and no earlier field of its own has the name of. -/
def keptFields (node : NodeDecl) (above : List NodeDecl) : List FieldDecl :=
  kept (above.flatMap fun other => other.fields.map (·.name)) node.fields

/-- One part of a pair stands for the first field of its name on the chain. -/
def partReport (node : NodeDecl) (above : List NodeDecl) (name : String) (expected : Primitive) :
    List Defect :=
  match (declaredFields (above ++ [node])).find? (·.decl.name == name) with
  | none => [.unboundMangle node.name name .noSuchField]
  | some field =>
    if field.decl.kind = .primitive expected then []
    else [.unboundMangle node.name name (.wrongKind (.primitive expected) field.decl.kind)]

/-- What is wrong with the pair that a class declares itself. -/
def pairReport (node : NodeDecl) (above : List NodeDecl) : List Defect :=
  match node.indicators.mangle with
  | none => []
  | some pair =>
    if above.any (·.indicators.mangle.isSome) then
      [.unboundMangle node.name pair.nameField .alreadyDeclared]
    else if pair.nameField = pair.flagField then
      [.unboundMangle node.name pair.nameField .sameField]
    else node.partReport above pair.nameField .text ++ node.partReport above pair.flagField .flag

/-- The defects of a class below `above`: those of its kept fields in the order of declaration,
then those of its pair. -/
def report (schema : Schema) (externals : NameSet) (node : NodeDecl) (above : List NodeDecl) :
    List Defect :=
  (node.keptFields above).flatMap (·.report schema externals node.name) ++ node.pairReport above

def cautions (node : NodeDecl) (above : List NodeDecl) : List Warning :=
  (node.keptFields above).flatMap (·.cautions node.name)

end NodeDecl

/-- A defect for each field of a class whose name stands before it on the chain, against the first
field of that name. -/
def clashes (cls : String) (before : List FlatField) : List FieldDecl → List Defect
  | [] => []
  | field :: rest =>
    ((before.find? (·.decl.name == field.name)).map (·.clash cls field)).toList ++
      clashes cls (before ++ [⟨field,cls⟩]) rest

namespace Hierarchy

def above (hierarchy : Hierarchy) (node : NodeDecl) : List NodeDecl :=
  (hierarchy.chain node).dropLast

/-- What the classes of a hierarchy give rise to, in its order. -/
def report (hierarchy : Hierarchy) (externals : NameSet) : List Defect :=
  hierarchy.order.flatMap fun node =>
    node.report hierarchy.schema externals (hierarchy.above node)

structure Reported (hierarchy : Hierarchy) (schema : Schema) (externals : NameSet)
    (resolution : Resolution) : Prop where
  base : hierarchy.schema = schema
  preorder : hierarchy.order = schema.forest
  every : hierarchy.order.Perm schema.nodes
  above : ∀ node ∈ hierarchy.order, schema.HasChain node (hierarchy.above node ++ [node])
  redeclared : hierarchy.flattening.defects = hierarchy.order.flatMap fun node =>
    clashes node.name (declaredFields (hierarchy.above node)) node.fields
  defects : resolution.defects = hierarchy.flattening.defects ++ hierarchy.report externals
  accepted : resolution.defects = [] ↔ ∃ model, resolution.outcome = .ok model
  once : (hierarchy.report externals).Nodup
  /-- What is said about a class comes from its own declarations, whatever stands below it. -/
  own : ∀ node ∈ hierarchy.order,
    (hierarchy.report externals).filter (·.cls? = some node.name) =
      node.report schema externals (hierarchy.above node)
  warnings : resolution.warnings =
    hierarchy.order.flatMap fun node => node.cautions (hierarchy.above node)
  warnedOnce : resolution.warnings.Nodup

end Hierarchy

theorem CopyMode.objection_eq {kind : FieldKind} {bound : Bool} {mode : CopyMode}
    {reason : CopyDefect} (found : mode.defect? kind bound = some reason) :
    mode.objection kind = reason := by
  cases mode with
  | external => cases owner : kind.external? <;> simp_all [defect?,objection]
  | deep =>
    cases owner : kind.external? with
    | some name => simp_all [defect?,objection]
    | none =>
      by_cases deferred : kind.isReference = true ∧ bound = false
      · simp_all [defect?,objection]
      · simp [defect?,owner,deferred] at found
  | share => simp [defect?] at found
  | reset => simp [defect?] at found

theorem FieldKind.typeName_eq {schema : Schema} {externals : NameSet} {field : FlatField}
    {name : String} (found : field.unknownType? schema externals = some name) :
    field.decl.kind.typeName = name := by
  unfold FlatField.unknownType? at found
  unfold FieldKind.typeName
  split at found <;> simp_all [FieldKind.target?,FieldKind.external?]

namespace FlatField

theorem defects_eq_report (schema : Schema) (externals : NameSet) (field : FlatField) :
    field.defects schema externals = field.decl.report schema externals field.declaredIn := by
  have mode : field.copyMode = field.decl.mode := rfl
  unfold defects FieldDecl.report
  rw [mode]
  refine congrArg₂ (· ++ ·) ?_ ?_
  · by_cases known : field.decl.kind.Known schema externals
    · simp [known,(unknownType?_eq_none schema externals field).mpr known]
    · obtain ⟨name,found⟩ := Option.ne_none_iff_exists'.mp
        (mt (unknownType?_eq_none schema externals field).mp known)
      simp [known,found,FieldKind.typeName_eq found]
  · by_cases admissible : field.decl.mode.Admissible field.decl.kind field.decl.policy.bound
    · simp [admissible,(CopyMode.defect?_eq_none ..).mpr admissible]
    · obtain ⟨reason,found⟩ := Option.ne_none_iff_exists'.mp
        (mt (CopyMode.defect?_eq_none ..).mp admissible)
      simp [admissible,found,CopyMode.objection_eq found]

theorem warnings_eq_cautions (field : FlatField) :
    field.warnings = field.decl.cautions field.declaredIn := by
  have mode : field.copyMode = field.decl.mode := rfl
  simp [warnings,FieldDecl.cautions,mode,and_assoc]

end FlatField

-- A field list that lacks later fields of a name has the same first ones.
section First

variable {fields before : List FlatField}

theorem find?_append_taken {earlier : FlatField} {field : FieldDecl} (cls : String)
    (found : before.find? (·.decl.name == field.name) = some earlier) (name : String) :
    (before ++ [FlatField.mk field cls]).find? (·.decl.name == name) =
      before.find? (·.decl.name == name) := by
  rw [List.find?_append]
  by_cases here : field.name = name
  · rw [← here,found]
    rfl
  · simp [here]

theorem appendOwn_find? (cls : String) (own : List FieldDecl)
    (same : ∀ name, fields.find? (·.decl.name == name) = before.find? (·.decl.name == name))
    (name : String) :
    (appendOwn cls fields own).1.find? (·.decl.name == name) =
      (before ++ own.map (FlatField.mk · cls)).find? (·.decl.name == name) := by
  induction own generalizing fields before with
  | nil => simpa [appendOwn] using same name
  | cons field rest ih =>
    rw [List.map_cons,List.append_cons before,appendOwn]
    split
    next earlier found =>
      -- The field is left out on one side and comes too late to be first on the other.
      apply ih
      intro other
      rw [find?_append_taken cls ((same _).symm.trans found),same]
    next =>
      apply ih
      intro other
      rw [List.find?_append,List.find?_append,same]

theorem appendOwn_clashes (cls : String) (own : List FieldDecl)
    (same : ∀ name, fields.find? (·.decl.name == name) = before.find? (·.decl.name == name)) :
    (appendOwn cls fields own).2 = clashes cls before own := by
  induction own generalizing fields before with
  | nil => rfl
  | cons field rest ih =>
    rw [appendOwn,clashes,← same]
    split
    next earlier found =>
      rw [found]
      refine congrArg (earlier.clash cls field :: ·) (ih fun other => ?_)
      rw [find?_append_taken cls ((same _).symm.trans found),same]
    next fresh =>
      rw [fresh]
      refine ih fun other => ?_
      rw [List.find?_append,List.find?_append,same]

theorem find?_flatten (chain : List NodeDecl) (name : String) :
    (flatten chain).find? (·.decl.name == name) =
      (declaredFields chain).find? (·.decl.name == name) := by
  induction chain using List.reverseRecOn generalizing name with
  | nil => rfl
  | append_singleton chain node ih =>
    rw [flatten_concat,declaredFields_concat]
    exact appendOwn_find? node.name node.fields ih name

end First

theorem NodeDecl.partReport_eq {node : NodeDecl} {above : List NodeDecl} {fields : List Model.Field}
    {name : String} (expected : Primitive)
    (same : (fields.find? (·.name == name)).map (·.kind) =
      ((declaredFields (above ++ [node])).find? (·.decl.name == name)).map (·.decl.kind)) :
    bindingReport node.name name (bindField fields name expected) =
      node.partReport above name expected := by
  unfold bindField partReport
  cases found : fields.find? (·.name == name) with
  | none =>
    cases declared : (declaredFields (above ++ [node])).find? (·.decl.name == name) with
    | none => rfl
    | some first => rw [found,declared] at same; contradiction
  | some field =>
    cases declared : (declaredFields (above ++ [node])).find? (·.decl.name == name) with
    | none => rw [found,declared] at same; contradiction
    | some first =>
      rw [found,declared] at same
      have kind : field.kind = first.decl.kind := Option.some.inj same
      by_cases typed : first.decl.kind = .primitive expected
      · simp [kind,typed,bindingReport]
      · simp [kind,typed,bindingReport]

namespace Hierarchy

variable (hierarchy : Hierarchy) {node : NodeDecl} {chain : List NodeDecl}

theorem find?_resolvedFields (names : hierarchy.schema.DistinctNames)
    (line : hierarchy.schema.HasChain node chain) (name : String) :
    ((hierarchy.resolvedFields node).find? (·.name == name)).map (·.kind) =
      ((declaredFields chain).find? (·.decl.name == name)).map (·.decl.kind) := by
  rw [← find?_flatten,resolvedFields,layout_fields hierarchy names line,List.find?_map,
    Option.map_map]
  rfl

theorem keptFields_eq (names : hierarchy.schema.DistinctNames)
    (line : hierarchy.schema.HasChain node chain) :
    (hierarchy.layout node).ownFields =
      (node.keptFields chain.dropLast).map (⟨·,node.name⟩) := by
  rw [ownFields_eq_kept hierarchy names line,NodeDecl.keptFields,
    kept_congr node.fields (mem_flatten_names chain.dropLast)]

theorem mangleDefects_eq_report (names : hierarchy.schema.DistinctNames)
    (line : hierarchy.schema.HasChain node chain) :
    hierarchy.mangleDefects (hierarchy.layout node) = node.pairReport chain.dropLast := by
  have part (name : String) (expected : Primitive) :
      bindingReport node.name name (bindField (hierarchy.resolvedFields node) name expected) =
        node.partReport chain.dropLast name expected := by
    refine NodeDecl.partReport_eq expected ?_
    rw [← line.ends]
    exact find?_resolvedFields hierarchy names line name
  have own : (hierarchy.layout node).node = node := rfl
  have named : (hierarchy.layout node).name = node.name := rfl
  unfold mangleDefects NodeDecl.pairReport
  rw [own,named,layout_chain hierarchy names line]
  cases node.indicators.mangle with
  | none => rfl
  | some pair => simp only [ManglePair.bind_report,part]

/-- What is found in a class by itself is what its declarations give rise to. -/
theorem classDefects_eq_report (names : hierarchy.schema.DistinctNames) (externals : NameSet)
    (line : hierarchy.schema.HasChain node chain) :
    hierarchy.classDefects externals (hierarchy.layout node) =
      node.report hierarchy.schema externals chain.dropLast := by
  rw [classDefects,mangleDefects_eq_report hierarchy names line,
    keptFields_eq hierarchy names line,NodeDecl.report,List.flatMap_map]
  simp only [FlatField.defects_eq_report]

theorem warnings_eq_cautions (names : hierarchy.schema.DistinctNames)
    (line : hierarchy.schema.HasChain node chain) :
    (hierarchy.layout node).ownFields.flatMap (·.warnings) = node.cautions chain.dropLast := by
  rw [keptFields_eq hierarchy names line,NodeDecl.cautions,List.flatMap_map]
  simp only [FlatField.warnings_eq_cautions]

theorem redeclarations_eq_clashes (names : hierarchy.schema.DistinctNames)
    (line : hierarchy.schema.HasChain node chain) :
    hierarchy.redeclarations node =
      clashes node.name (declaredFields chain.dropLast) node.fields := by
  rw [redeclarations_eq hierarchy names line]
  exact appendOwn_clashes node.name node.fields (find?_flatten chain.dropLast)

end Hierarchy

section Once

variable {α β κ : Type} {items : List α} {say : α → List β} (key : α → κ) (about : β → κ)

/-- If what is said tells whom it is about, it is enough that nobody gives rise to one thing
twice. -/
theorem nodup_flatMap_of_about (distinct : (items.map key).Nodup)
    (each : ∀ item ∈ items, (say item).Nodup)
    (told : ∀ item ∈ items, ∀ said ∈ say item, about said = key item) :
    (items.flatMap say).Nodup := by
  rw [List.nodup_flatMap]
  refine ⟨each,(List.pairwise_map.mp distinct).imp_of_mem ?_⟩
  intro a b inA inB apart said left right
  exact apart ((told a inA said left).symm.trans (told b inB said right))

theorem filter_flatMap_of_about [DecidableEq κ] (distinct : (items.map key).Nodup) {item : α}
    (member : item ∈ items) (told : ∀ item ∈ items, ∀ said ∈ say item, about said = key item) :
    (items.flatMap say).filter (about · = key item) = say item := by
  obtain ⟨before,after,rfl⟩ := List.append_of_mem member
  have others (other : α) (inside : other ∈ before ++ item :: after) (apart : key other ≠ key item) :
      (say other).filter (about · = key item) = [] := by
    rw [List.filter_eq_nil_iff]
    intro said heard same
    exact apart ((told other inside said heard).symm.trans (of_decide_eq_true same))
  have first : (before.flatMap say).filter (about · = key item) = [] := by
    rw [List.filter_flatMap,List.flatMap_eq_nil_iff]
    intro other inside
    refine others other (List.mem_append_left _ inside) fun same => ?_
    rw [List.map_append,List.map_cons] at distinct
    exact List.disjoint_of_nodup_append distinct (same ▸ List.mem_map_of_mem inside) List.mem_cons_self
  have last : (after.flatMap say).filter (about · = key item) = [] := by
    rw [List.filter_flatMap,List.flatMap_eq_nil_iff]
    intro other inside
    refine others other (by simp [inside]) fun same => ?_
    rw [List.map_append,List.map_cons] at distinct
    exact (List.nodup_cons.mp distinct.of_append_right).1 (same ▸ List.mem_map_of_mem inside)
  have here : (say item).filter (about · = key item) = say item := by
    rw [List.filter_eq_self]
    intro said heard
    exact decide_eq_true (told item member said heard)
  rw [List.flatMap_append,List.flatMap_cons,List.filter_append,List.filter_append,first,last,here]
  simp

end Once

namespace FieldDecl

variable {schema : Schema} {externals : NameSet} {cls : String} {field : FieldDecl}

theorem report_nodup : (field.report schema externals cls).Nodup := by
  unfold report
  split <;> split <;> simp

theorem about_report {defect : Defect} (said : defect ∈ field.report schema externals cls) :
    defect.cls? = some cls ∧ defect.field? = some field.name ∧ defect.ofPair = false := by
  rw [report,List.mem_append] at said
  rcases said with type | mode
  · split at type
    · simp at type
    · rw [List.mem_singleton.mp type]
      exact ⟨rfl,rfl,rfl⟩
  · split at mode
    · simp at mode
    · rw [List.mem_singleton.mp mode]
      exact ⟨rfl,rfl,rfl⟩

theorem cautions_nodup : (field.cautions cls).Nodup := by
  unfold cautions
  split <;> split <;> simp

theorem about_cautions {warning : Warning} (said : warning ∈ field.cautions cls) :
    warning.cls = cls ∧ warning.field = field.name := by
  rw [cautions,List.mem_append] at said
  rcases said with shared | lost
  · split at shared
    · rw [List.mem_singleton.mp shared]
      exact ⟨rfl,rfl⟩
    · simp at shared
  · split at lost
    · rw [List.mem_singleton.mp lost]
      exact ⟨rfl,rfl⟩
    · simp at lost

end FieldDecl

namespace NodeDecl

variable {schema : Schema} {externals : NameSet} {node : NodeDecl} {above : List NodeDecl}

theorem keptFields_nodup (node : NodeDecl) (above : List NodeDecl) :
    ((node.keptFields above).map (·.name)).Nodup := kept_names_nodup _ node.fields

theorem partReport_cases (node : NodeDecl) (above : List NodeDecl) (name : String) (expected : Primitive) :
    node.partReport above name expected = [] ∨
      ∃ reason, node.partReport above name expected = [.unboundMangle node.name name reason] := by
  unfold partReport
  split
  · exact .inr ⟨_,rfl⟩
  · split
    · exact .inl rfl
    · exact .inr ⟨_,rfl⟩

theorem about_pairReport {defect : Defect} (said : defect ∈ node.pairReport above) :
    defect.cls? = some node.name ∧ defect.ofPair = true := by
  have part {name : String} {expected : Primitive}
      (said : defect ∈ node.partReport above name expected) :
      defect.cls? = some node.name ∧ defect.ofPair = true := by
    rcases partReport_cases node above name expected with nothing | ⟨reason,one⟩
    · simp [nothing] at said
    · rw [one,List.mem_singleton] at said
      rw [said]
      exact ⟨rfl,rfl⟩
  unfold pairReport at said
  split at said
  · simp at said
  · split_ifs at said
    · rw [List.mem_singleton.mp said]
      exact ⟨rfl,rfl⟩
    · rw [List.mem_singleton.mp said]
      exact ⟨rfl,rfl⟩
    · rcases List.mem_append.mp said with first | second
      · exact part first
      · exact part second

theorem pairReport_nodup : (node.pairReport above).Nodup := by
  unfold pairReport
  cases node.indicators.mangle with
  | none => simp
  | some pair =>
    dsimp only
    split_ifs with nested same
    · simp
    · simp
    · rcases partReport_cases node above pair.nameField .text with first | ⟨_,first⟩ <;>
        rcases partReport_cases node above pair.flagField .flag with second | ⟨_,second⟩ <;>
        simp [first,second,same]

theorem about_report {defect : Defect} (said : defect ∈ node.report schema externals above) :
    defect.cls? = some node.name := by
  rcases List.mem_append.mp said with field | pair
  · obtain ⟨field,_,said⟩ := List.mem_flatMap.mp field
    exact (FieldDecl.about_report said).1
  · exact (about_pairReport pair).1

theorem report_nodup : (node.report schema externals above).Nodup := by
  refine List.Nodup.append ?_ pairReport_nodup ?_
  · refine nodup_flatMap_of_about (fun field => some field.name) Defect.field? ?_
      (fun _ _ => FieldDecl.report_nodup) fun _ _ _ said => (FieldDecl.about_report said).2.1
    have distinct := List.Nodup.map (Option.some_injective _) (keptFields_nodup node above)
    rwa [List.map_map] at distinct
  · intro defect field pair
    obtain ⟨_,_,said⟩ := List.mem_flatMap.mp field
    have other := (FieldDecl.about_report said).2.2
    rw [(about_pairReport pair).2] at other
    contradiction

theorem about_cautions {warning : Warning} (said : warning ∈ node.cautions above) :
    warning.cls = node.name := by
  obtain ⟨_,_,said⟩ := List.mem_flatMap.mp said
  exact (FieldDecl.about_cautions said).1

theorem cautions_nodup : (node.cautions above).Nodup :=
  nodup_flatMap_of_about FieldDecl.name Warning.field (keptFields_nodup node above)
    (fun _ _ => FieldDecl.cautions_nodup) fun _ _ _ said => (FieldDecl.about_cautions said).2

end NodeDecl

namespace Resolution

variable (found : List Defect) (model : Model) (warnings : List Warning)

theorem defects_eq :
    defects ⟨if found.isEmpty then .ok model else .error found,warnings⟩ = found := by
  cases found <;> rfl

theorem found_nil_iff :
    found = [] ↔ ∃ result, (if found.isEmpty then .ok model else .error found :
      Except (List Defect) Model) = .ok result := by
  cases found <;> simp

end Resolution

namespace Schema

variable {schema : Schema} {hierarchy : Hierarchy} (names : schema.DistinctNames)

include names

theorem flattening_defects_eq : schema.hierarchy.flattening.defects = schema.preorder.flatMap
    fun node => clashes node.name (declaredFields (schema.hierarchy.above node)) node.fields := by
  rw [Hierarchy.flattening_eq names]
  exact List.flatMap_congr fun node member =>
    schema.hierarchy.redeclarations_eq_clashes names (chain_of_mem names member)

theorem classDefects_flatMap_eq (externals : NameSet) :
    schema.hierarchy.layouts.flatMap (schema.hierarchy.classDefects externals) =
      schema.hierarchy.report externals := by
  rw [Hierarchy.layouts,List.flatMap_map]
  exact List.flatMap_congr fun node member =>
    schema.hierarchy.classDefects_eq_report names externals (chain_of_mem names member)

theorem warnings_flatMap_eq :
    (schema.hierarchy.layouts.flatMap (·.ownFields)).flatMap (·.warnings) =
      schema.preorder.flatMap fun node => node.cautions (schema.hierarchy.above node) := by
  rw [Hierarchy.layouts,List.flatMap_map,List.flatMap_assoc]
  exact List.flatMap_congr fun node member =>
    schema.hierarchy.warnings_eq_cautions names (chain_of_mem names member)

omit names

/-- Each defect is reported once, in pre-order of the classes that declare it. -/
theorem resolution_reports (externals : NameSet) (built : Hierarchy.build schema = .ok hierarchy) :
    hierarchy.Reported schema externals (schema.resolution externals) := by
  obtain ⟨graph,rfl⟩ := Hierarchy.build_eq_ok_iff.mp built
  have names := graph.names
  have distinct : (schema.preorder.map (·.name)).Nodup :=
    ((preorder_perm names graph.acyclic).map _).nodup_iff.mpr names
  have tags : (schema.preorder.map fun node => some node.name).Nodup := by
    have injected := List.Nodup.map (Option.some_injective _) distinct
    rwa [List.map_map] at injected
  have told (node : NodeDecl) (_ : node ∈ schema.preorder) (defect : Defect)
      (said : defect ∈ node.report schema externals (schema.hierarchy.above node)) :
      defect.cls? = some node.name := NodeDecl.about_report said
  have flattened : schema.hierarchy.flattening.defects = schema.hierarchy.flattenDefects := by
    rw [Hierarchy.flattening_eq names]
    rfl
  rw [resolution_eq names built,classDefects_flatMap_eq names,warnings_flatMap_eq names,
    ← flattened]
  constructor
  case base => rfl
  case preorder => exact preorder_eq names
  case every => exact preorder_perm names graph.acyclic
  case above =>
    intro node member
    have line := chain_of_mem names member
    exact line.ends ▸ line
  case redeclared => exact flattening_defects_eq names
  case defects => exact Resolution.defects_eq ..
  case accepted =>
    rw [Resolution.defects_eq]
    exact Resolution.found_nil_iff ..
  case once =>
    exact nodup_flatMap_of_about (fun node => some node.name) Defect.cls? tags
      (fun _ _ => NodeDecl.report_nodup) told
  case own =>
    intro node member
    exact filter_flatMap_of_about (fun node : NodeDecl => some node.name) Defect.cls? tags member told
  case warnings => rfl
  case warnedOnce =>
    exact nodup_flatMap_of_about NodeDecl.name Warning.cls distinct
      (fun _ _ => NodeDecl.cautions_nodup) fun _ _ _ said => NodeDecl.about_cautions said

def flawed : Schema where
  nodes := [
    { name := "Node"
      fields := [
        { name := "type", kind := .primitive (.external "Type"), policy := { copyMode := some .deep } },
        { name := "name", kind := .primitive .text, policy := { copyMode := some .reset } }]
      indicators := { mangle := some ⟨"name","flag"⟩ } },
    { name := "Call"
      superclass := some "Node"
      fields := [{ name := "type", kind := .single "Node" }] },
    { name := "Name"
      superclass := some "Node"
      indicators := { mangle := some ⟨"name","name"⟩ } }]

theorem resolution_reports_flawed :
    Hierarchy.build flawed = .ok flawed.hierarchy ∧
      flawed.hierarchy.Reported flawed {} (flawed.resolution {}) :=
  ⟨rfl,resolution_reports {} (show Hierarchy.build flawed = _ from rfl)⟩

example : (flawed.resolution {}).defects = [
    .redeclared "Call" "type" (some "Node") false,
    .unresolvedType "Node" "type" "Type",
    .copyMode "Node" "type" .deep .deepExternal,
    .unboundMangle "Node" "flag" .noSuchField,
    .unboundMangle "Name" "name" .alreadyDeclared] := by decide

end Schema

end NodeModel
