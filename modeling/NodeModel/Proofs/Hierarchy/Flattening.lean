import NodeModel.Proofs.Hierarchy.Superclass

/-! Flattened field lists, read off a chain alone, against the plain concatenation of what its
classes declare. The two agree exactly where no class of the chain redeclares a name. -/
namespace NodeModel

def flatten (chain : List NodeDecl) : List FlatField :=
  chain.foldl (fun fields node => (appendOwn node.name fields node.fields).1) []

def Layout.ownFields (layout : Layout) : List FlatField :=
  layout.fields.filter (·.declaredIn == layout.node.name)

namespace Hierarchy

def layout (hierarchy : Hierarchy) (node : NodeDecl) : Layout :=
  let chain := hierarchy.chain node
  { node, chain, subclasses := hierarchy.subclasses node.name, fields := flatten chain }

def layouts (hierarchy : Hierarchy) : List Layout := hierarchy.order.map hierarchy.layout

def redeclarations (hierarchy : Hierarchy) (node : NodeDecl) : List Defect :=
  (appendOwn node.name (flatten (hierarchy.chain node).dropLast) node.fields).2

def flattenDefects (hierarchy : Hierarchy) : List Defect :=
  hierarchy.order.flatMap hierarchy.redeclarations

end Hierarchy

def declaredFields (chain : List NodeDecl) : List FlatField :=
  chain.flatMap fun node => node.fields.map (⟨·,node.name⟩)

theorem declaredFields_concat (chain : List NodeDecl) (node : NodeDecl) :
    declaredFields (chain ++ [node]) = declaredFields chain ++ node.fields.map (⟨·,node.name⟩) := by
  simp [declaredFields]

theorem declaredFields_names (chain : List NodeDecl) :
    (declaredFields chain).map (·.decl.name) =
      chain.flatMap fun node => node.fields.map (·.name) := by
  simp [declaredFields,List.map_flatMap,Function.comp_def]

theorem mem_declaredFields {chain : List NodeDecl} {field : FlatField} :
    field ∈ declaredFields chain ↔
      ∃ node ∈ chain, field.decl ∈ node.fields ∧ field.declaredIn = node.name := by
  simp only [declaredFields,List.mem_flatMap,List.mem_map]
  constructor
  · rintro ⟨node,member,decl,declared,rfl⟩
    exact ⟨node,member,declared,rfl⟩
  · rintro ⟨node,member,declared,named⟩
    exact ⟨node,member,field.decl,declared,by rw [← named]⟩

/-- The declared fields whose names are free when their turn comes. -/
def kept (taken : List String) : List FieldDecl → List FieldDecl
  | [] => []
  | field :: rest =>
    if field.name ∈ taken then kept taken rest else field :: kept (field.name :: taken) rest

theorem kept_congr {taken taken' : List String} (own : List FieldDecl)
    (same : ∀ name, name ∈ taken ↔ name ∈ taken') : kept taken own = kept taken' own := by
  induction own generalizing taken taken' with
  | nil => rfl
  | cons field rest ih =>
    have wider : ∀ name, name ∈ field.name :: taken ↔ name ∈ field.name :: taken' := by
      simp [same]
    simp only [kept,same field.name,ih same,ih wider]

theorem kept_subset (taken : List String) (own : List FieldDecl) : kept taken own ⊆ own := by
  induction own generalizing taken with
  | nil => simp [kept]
  | cons field rest ih =>
    rw [kept]
    split
    · exact List.subset_cons_of_subset _ (ih taken)
    · exact List.cons_subset_cons _ (ih _)

theorem kept_free {taken : List String} {own : List FieldDecl} {field : FieldDecl}
    (member : field ∈ kept taken own) : field.name ∉ taken := by
  induction own generalizing taken with
  | nil => simp [kept] at member
  | cons first rest ih =>
    rw [kept] at member
    split at member
    next => exact ih member
    next fresh =>
      rcases List.mem_cons.mp member with rfl | later
      · exact fresh
      · exact fun held => ih later (List.mem_cons_of_mem _ held)

/-- Under names that are all free, every field is kept. -/
theorem kept_eq_self {taken : List String} {own : List FieldDecl}
    (distinct : (taken ++ own.map (·.name)).Nodup) : kept taken own = own := by
  induction own generalizing taken with
  | nil => rfl
  | cons field rest ih =>
    have free : field.name ∉ taken := fun held =>
      List.disjoint_of_nodup_append distinct held List.mem_cons_self
    have later : (field.name :: taken ++ rest.map (·.name)).Nodup :=
      List.perm_middle.nodup_iff.mp distinct
    rw [kept,if_neg free,ih later]

theorem kept_names_nodup (taken : List String) (own : List FieldDecl) :
    ((kept taken own).map (·.name)).Nodup := by
  induction own generalizing taken with
  | nil => simp [kept]
  | cons field rest ih =>
    rw [kept]
    split
    next => exact ih taken
    next =>
      rw [List.map_cons,List.nodup_cons]
      refine ⟨fun again => ?_,ih _⟩
      obtain ⟨other,later,same⟩ := List.mem_map.mp again
      exact kept_free later (same ▸ List.mem_cons_self)

/-- A name is taken in the end if it was at first or some field bears it, kept or not. -/
theorem mem_kept_names (taken : List String) (own : List FieldDecl) (name : String) :
    name ∈ taken ++ (kept taken own).map (·.name) ↔ name ∈ taken ++ own.map (·.name) := by
  induction own generalizing taken with
  | nil => simp [kept]
  | cons field rest ih =>
    rw [kept]
    by_cases held : field.name ∈ taken
    · simp only [held,if_true,ih,List.mem_append,List.map_cons,List.mem_cons]
      constructor
      · rintro (before | later)
        · exact .inl before
        · exact .inr (.inr later)
      · rintro (before | rfl | later)
        · exact .inl before
        · exact .inl held
        · exact .inr later
    · have step := ih (field.name :: taken)
      simp only [List.mem_append,List.mem_cons,List.map_cons,held,if_false] at step ⊢
      tauto

/-- What a class adds to its inherited fields: those it declares under free names. -/
theorem appendOwn_eq_kept (cls : String) (fields : List FlatField) (own : List FieldDecl) :
    (appendOwn cls fields own).1 =
      fields ++ (kept (fields.map (·.decl.name)) own).map (⟨·,cls⟩) := by
  induction own generalizing fields with
  | nil => simp [appendOwn,kept]
  | cons field rest ih =>
    rw [appendOwn,kept]
    split
    next earlier found =>
      have held : field.name ∈ fields.map (·.decl.name) := by
        have same : earlier.decl.name = field.name := by simpa using List.find?_some found
        exact same ▸ List.mem_map_of_mem (List.mem_of_find?_eq_some found)
      simp only [held,if_true]
      exact ih fields
    next fresh =>
      have free : field.name ∉ fields.map (·.decl.name) := by
        intro held
        obtain ⟨earlier,member,same⟩ := List.mem_map.mp held
        simpa [same] using List.find?_eq_none.mp fresh earlier member
      have names : ∀ name, name ∈ (fields ++ [FlatField.mk field cls]).map (·.decl.name) ↔
          name ∈ field.name :: fields.map (·.decl.name) := by
        intro name
        rw [List.map_append,List.mem_append,List.mem_cons,List.map_singleton,List.mem_singleton,
          or_comm]
      simp only [free,if_false]
      rw [ih,kept_congr rest names]
      simp

/-- Names stay distinct, whatever a class declares. -/
theorem appendOwn_nodup (cls : String) (fields : List FlatField) (own : List FieldDecl)
    (distinct : (fields.map (·.decl.name)).Nodup) :
    ((appendOwn cls fields own).1.map (·.decl.name)).Nodup := by
  rw [appendOwn_eq_kept,List.map_append,List.map_map]
  refine distinct.append (kept_names_nodup _ own) fun name held again => ?_
  obtain ⟨field,member,rfl⟩ := List.mem_map.mp again
  exact kept_free member held

/-- A class is free of redeclarations exactly if the names stay distinct with all of its fields. -/
theorem appendOwn_clean_iff (cls : String) (fields : List FlatField) (own : List FieldDecl)
    (distinct : (fields.map (·.decl.name)).Nodup) :
    (appendOwn cls fields own).2 = [] ↔
      (fields.map (·.decl.name) ++ own.map (·.name)).Nodup := by
  induction own generalizing fields with
  | nil => simpa [appendOwn] using distinct
  | cons field rest ih =>
    rw [appendOwn]
    split
    next earlier found =>
      have member := List.mem_of_find?_eq_some found
      have same : earlier.decl.name = field.name := by simpa using List.find?_some found
      simp only [reduceCtorEq,List.map_cons,false_iff]
      intro nodup
      refine List.disjoint_of_nodup_append nodup (List.mem_map_of_mem member) ?_
      rw [same]
      exact List.mem_cons_self
    next fresh =>
      have extended : ((fields ++ [FlatField.mk field cls]).map (·.decl.name)).Nodup := by
        simpa [appendOwn,fresh] using appendOwn_nodup cls fields [field] distinct
      rw [ih _ extended]
      simp

theorem flatten_concat (chain : List NodeDecl) (node : NodeDecl) :
    flatten (chain ++ [node]) = (appendOwn node.name (flatten chain) node.fields).1 := by
  simp [flatten]

theorem flatten_concat_eq (chain : List NodeDecl) (node : NodeDecl) :
    flatten (chain ++ [node]) = flatten chain ++
      (kept ((flatten chain).map (·.decl.name)) node.fields).map (⟨·,node.name⟩) := by
  rw [flatten_concat,appendOwn_eq_kept]

/-- The names along a chain are those of all fields declared there, kept or not. -/
theorem mem_flatten_names (chain : List NodeDecl) (name : String) :
    name ∈ (flatten chain).map (·.decl.name) ↔
      name ∈ chain.flatMap fun node => node.fields.map (·.name) := by
  induction chain using List.reverseRecOn with
  | nil => simp [flatten]
  | append_singleton chain node ih =>
    have step := mem_kept_names ((flatten chain).map (·.decl.name)) node.fields name
    rw [flatten_concat_eq]
    simp only [List.map_append,List.map_map,Function.comp_def,List.mem_append,ih,
      List.flatMap_append,List.flatMap_singleton] at step ⊢
    exact step

theorem flatten_declaredIn {chain : List NodeDecl} {field : FlatField}
    (member : field ∈ flatten chain) :
    ∃ node ∈ chain, field.decl ∈ node.fields ∧ field.declaredIn = node.name := by
  induction chain using List.reverseRecOn with
  | nil => simp [flatten] at member
  | append_singleton chain node ih =>
    rw [flatten_concat_eq,List.mem_append] at member
    rcases member with inherited | own
    · obtain ⟨other,above,declared,named⟩ := ih inherited
      exact ⟨other,List.mem_append_left _ above,declared,named⟩
    · obtain ⟨decl,inside,rfl⟩ := List.mem_map.mp own
      exact ⟨node,by simp,kept_subset _ _ inside,rfl⟩

theorem flatten_nodup (chain : List NodeDecl) : ((flatten chain).map (·.decl.name)).Nodup := by
  induction chain using List.reverseRecOn with
  | nil => simp [flatten]
  | append_singleton chain node ih =>
    rw [flatten_concat]
    exact appendOwn_nodup _ _ _ ih

theorem flatten_eq_declaredFields (chain : List NodeDecl)
    (distinct : ((declaredFields chain).map (·.decl.name)).Nodup) :
    flatten chain = declaredFields chain := by
  induction chain using List.reverseRecOn with
  | nil => rfl
  | append_singleton chain node ih =>
    rw [declaredFields_concat,List.map_append] at distinct
    have same := ih distinct.of_append_left
    rw [List.map_map] at distinct
    rw [flatten_concat_eq,declaredFields_concat,same,kept_eq_self distinct]

namespace Hierarchy

variable (hierarchy : Hierarchy) {node : NodeDecl} {chain : List NodeDecl}

theorem chain_eq (names : hierarchy.schema.DistinctNames)
    (line : hierarchy.schema.HasChain node chain) : hierarchy.chain node = chain := by
  have bound := line.length_le names
  rw [Hierarchy.chain,line.lineage_eq names _ (by omega),List.reverse_reverse]

theorem layout_chain (names : hierarchy.schema.DistinctNames)
    (line : hierarchy.schema.HasChain node chain) : (hierarchy.layout node).chain = chain :=
  chain_eq hierarchy names line

theorem layout_fields (names : hierarchy.schema.DistinctNames)
    (line : hierarchy.schema.HasChain node chain) :
    (hierarchy.layout node).fields = flatten chain := by
  rw [layout,chain_eq hierarchy names line]

theorem redeclarations_eq (names : hierarchy.schema.DistinctNames)
    (line : hierarchy.schema.HasChain node chain) :
    hierarchy.redeclarations node =
      (appendOwn node.name (flatten chain.dropLast) node.fields).2 := by
  rw [redeclarations,chain_eq hierarchy names line]

/-- No class of a chain redeclares a name exactly if the names along the chain are distinct. -/
theorem redeclarations_nil_iff (names : hierarchy.schema.DistinctNames)
    (line : hierarchy.schema.HasChain node chain) :
    (∀ other ∈ chain, hierarchy.redeclarations other = []) ↔
      ((declaredFields chain).map (·.decl.name)).Nodup := by
  induction line with
  | @top node member alone =>
    have own := appendOwn_clean_iff node.name (flatten []) node.fields (flatten_nodup [])
    simpa [redeclarations_eq hierarchy names (.top member alone),declaredFields,flatten,
      Function.comp_def] using own
  | @extend node _ chain link above ih =>
    have own := appendOwn_clean_iff node.name (flatten chain) node.fields (flatten_nodup chain)
    have here := redeclarations_eq hierarchy names (.extend link above)
    rw [List.dropLast_concat] at here
    rw [List.forall_mem_append,List.forall_mem_singleton,here,ih,declaredFields_concat,
      List.map_append,List.map_map,Function.comp_def]
    constructor
    · rintro ⟨earlier,clean⟩
      rwa [own,flatten_eq_declaredFields _ earlier] at clean
    · intro distinct
      refine ⟨distinct.of_append_left,?_⟩
      rwa [own,flatten_eq_declaredFields _ distinct.of_append_left]

end Hierarchy

end NodeModel
