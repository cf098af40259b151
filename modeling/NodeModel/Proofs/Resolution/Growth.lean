import NodeModel.Proofs.Resolution.Indicators

/-! One more field in one class. It shows in the records of the class and of the classes below, in
one place of each list that has room for it, and nowhere else. -/
namespace NodeModel

/-- The class with one more field at the end of its own, if it has the name given. -/
def NodeDecl.grow (cls : String) (field : FieldDecl) (node : NodeDecl) : NodeDecl :=
  if node.name = cls then { node with fields := node.fields ++ [field] } else node

def Schema.addField (schema : Schema) (cls : String) (field : FieldDecl) : Schema :=
  { schema with nodes := schema.nodes.map (·.grow cls field) }

/-- `grown` is `old` with `new` put in behind `front`. -/
def Inserted {α : Type} (front new old grown : List α) : Prop :=
  ∃ rest, old = front ++ rest ∧ grown = front ++ new ++ rest

/-- A record takes `entry` in where the lists of `home` end. The constructor has a place for it
unless it is deferred, and the traversal if it is a reference that is not hidden. -/
structure Model.Class.Gains (home : Class) (entry : Field) (cls grown : Class) : Prop where
  fields : Inserted home.fields [entry] cls.fields grown.fields
  cloneRules : Inserted home.cloneRules [⟨entry.name,.of entry.kind entry.policy.copyMode⟩]
    cls.cloneRules grown.cloneRules
  deferred : entry.policy.bound = false → grown.params = cls.params
  given : entry.policy.bound = true →
    Inserted home.params [⟨entry.name,entry.policy.optional⟩] cls.params grown.params
  unvisited : entry.policy.visitable = false ∨ entry.kind.isReference = false →
    grown.traversal = cls.traversal
  visited : entry.policy.visitable = true → entry.kind.isReference = true →
    Inserted home.traversal [⟨entry.name,entry.kind.isList⟩] cls.traversal grown.traversal
  rest : { grown with fields := [], params := [], traversal := [], cloneRules := [] } =
    { cls with fields := [], params := [], traversal := [], cloneRules := [] }

section

variable {α β : Type} {front new old grown : List α}

theorem Inserted.map (inserted : Inserted front new old grown) (f : α → β) :
    Inserted (front.map f) (new.map f) (old.map f) (grown.map f) := by
  obtain ⟨rest,rfl,rfl⟩ := inserted
  exact ⟨rest.map f,by simp,by simp⟩

theorem Inserted.filter (inserted : Inserted front new old grown) (keep : α → Bool) :
    Inserted (front.filter keep) (new.filter keep) (old.filter keep) (grown.filter keep) := by
  obtain ⟨rest,rfl,rfl⟩ := inserted
  exact ⟨rest.filter keep,by simp,by simp⟩

theorem Inserted.eq_of_nothing (inserted : Inserted front [] old grown) : grown = old := by
  obtain ⟨rest,rfl,rfl⟩ := inserted
  simp

theorem Inserted.subset (inserted : Inserted front new old grown) : old ⊆ grown := by
  obtain ⟨rest,rfl,rfl⟩ := inserted
  intro item inside
  simp only [List.mem_append] at inside ⊢
  tauto

end

namespace NodeDecl

variable (cls : String) (field : FieldDecl) (node : NodeDecl)

@[simp] theorem grow_name : (node.grow cls field).name = node.name := by
  unfold grow
  split <;> rfl

@[simp] theorem grow_superclass : (node.grow cls field).superclass = node.superclass := by
  unfold grow
  split <;> rfl

@[simp] theorem grow_indicators : (node.grow cls field).indicators = node.indicators := by
  unfold grow
  split <;> rfl

@[simp] theorem grow_doc : (node.grow cls field).doc = node.doc := by
  unfold grow
  split <;> rfl

theorem grow_other {cls : String} {node : NodeDecl} (apart : node.name ≠ cls) :
    node.grow cls field = node := if_neg apart

theorem grow_fields : (node.grow node.name field).fields = node.fields ++ [field] := by
  simp [grow]

end NodeDecl

namespace Schema

section

variable (schema : Schema) (cls : String) (field : FieldDecl)

theorem node?_addField (name : String) :
    (schema.addField cls field).node? name = (schema.node? name).map (·.grow cls field) := by
  simp only [node?,addField,List.find?_map,Function.comp_def,NodeDecl.grow_name]

theorem declares_addField (name : String) :
    (schema.addField cls field).declares name = schema.declares name := by
  simp [declares,node?_addField]

theorem parent?_addField (node : NodeDecl) :
    (schema.addField cls field).parent? (node.grow cls field) =
      (schema.parent? node).map (·.grow cls field) := by
  cases named : node.superclass <;> simp [parent?,named,node?_addField]

theorem topLevel_addField :
    (schema.addField cls field).topLevel = schema.topLevel.map (·.grow cls field) := by
  have alone (node : NodeDecl) :
      ((schema.addField cls field).parent? (node.grow cls field)).isNone =
        (schema.parent? node).isNone := by
    rw [parent?_addField,Option.isNone_map]
  simp only [topLevel,addField,List.filter_map,Function.comp_def]
  exact congrArg _ (List.filter_congr fun node _ => alone node)

theorem extending_addField (name : String) :
    (schema.addField cls field).extending name =
      (schema.extending name).map (·.grow cls field) := by
  simp [extending,addField,List.filter_map,Function.comp_def]

theorem unstack_addField (fuel : Nat) (stack : List NodeDecl) :
    (schema.addField cls field).unstack fuel (stack.map (·.grow cls field)) =
      (schema.unstack fuel stack).map (·.grow cls field) := by
  induction fuel generalizing stack with
  | zero => rfl
  | succ fuel ih =>
    cases stack with
    | nil => rfl
    | cons node stack =>
      rw [List.map_cons,unstack,unstack,NodeDecl.grow_name,extending_addField,← List.map_append,ih,
        List.map_cons]

/-- The classes come in the same order. -/
theorem preorder_addField :
    (schema.addField cls field).preorder = schema.preorder.map (·.grow cls field) := by
  rw [preorder,preorder,topLevel_addField,unstack_addField]
  simp [addField]

theorem lineage_addField (fuel : Nat) (node : NodeDecl) :
    Hierarchy.lineage (schema.addField cls field) fuel (node.grow cls field) =
      (Hierarchy.lineage schema fuel node).map (·.grow cls field) := by
  induction fuel generalizing node with
  | zero => rfl
  | succ fuel ih =>
    rw [Hierarchy.lineage,Hierarchy.lineage,parent?_addField]
    cases schema.parent? node with
    | none => rfl
    | some parent => simp [ih]

theorem chain_addField (node : NodeDecl) :
    (schema.addField cls field).hierarchy.chain (node.grow cls field) =
      (schema.hierarchy.chain node).map (·.grow cls field) := by
  simp only [Hierarchy.chain,hierarchy,lineage_addField,List.map_reverse]
  simp [addField]

theorem subclasses_addField (name : String) :
    (schema.addField cls field).hierarchy.subclasses name = schema.hierarchy.subclasses name := by
  have declared : (schema.addField cls field).hierarchy.contains name =
      schema.hierarchy.contains name := schema.declares_addField cls field name
  have below : ((schema.addField cls field).hierarchy.schema.extending name).map (·.name) =
      (schema.hierarchy.schema.extending name).map (·.name) := by
    rw [hierarchy,hierarchy,extending_addField]
    simp [Function.comp_def]
  rw [Hierarchy.subclasses,Hierarchy.subclasses,declared,below]

end

variable {schema : Schema} {externals : NameSet} {node owner : NodeDecl} {chain : List NodeDecl}

theorem HasChain.grow (cls : String) (field : FieldDecl) (line : schema.HasChain node chain) :
    (schema.addField cls field).HasChain (node.grow cls field)
      (chain.map (·.grow cls field)) := by
  induction line with
  | top member alone =>
    refine .top (List.mem_map_of_mem member) ?_
    rintro parent ⟨_,declared,named⟩
    obtain ⟨above,member',rfl⟩ := List.mem_map.mp declared
    exact alone above ⟨member,member',by simpa using named⟩
  | extend link above ih =>
    have link' := link.2.2
    rw [List.map_append,List.map_singleton]
    exact .extend ⟨List.mem_map_of_mem link.1,List.mem_map_of_mem link.2.1,by simpa using link'⟩ ih

/-- Away from the class that gains the field, nothing changes. -/
theorem map_grow_eq (names : schema.DistinctNames) (field : FieldDecl)
    (member : owner ∈ schema.nodes) {part : List NodeDecl} (declared : part ⊆ schema.nodes)
    (absent : owner ∉ part) : part.map (·.grow owner.name field) = part := by
  refine (List.map_congr_left fun other inside => ?_).trans (List.map_id part)
  refine NodeDecl.grow_other field fun same => absent ?_
  rwa [← eq_of_name names (declared inside) member same]

/-- The new field comes right behind all that is declared down to its class. -/
theorem declaredFields_grow (names : schema.DistinctNames) (field : FieldDecl)
    (line : schema.HasChain node chain) {part : List NodeDecl} (line' : schema.HasChain owner part)
    (initial : part <+: chain) :
    Inserted (declaredFields part) [⟨field,owner.name⟩] (declaredFields chain)
      (declaredFields (chain.map (·.grow owner.name field))) := by
  obtain ⟨below,rfl⟩ := initial
  have distinct := line.nodup names
  have declared := line.subset
  rw [line'.ends] at distinct declared ⊢
  simp only [List.append_assoc,List.singleton_append] at distinct declared ⊢
  obtain ⟨fresh,fresh'⟩ : owner ∉ part.dropLast ∧ owner ∉ below := by
    simpa using List.nodup_middle.mp distinct |>.notMem
  have above_eq := map_grow_eq names field line'.member
    (fun other inside => declared (List.mem_append_left _ inside)) fresh
  have below_eq := map_grow_eq names field line'.member
    (fun other inside => declared (by simp [inside])) fresh'
  refine ⟨declaredFields below,by simp [declaredFields],?_⟩
  simp [declaredFields,above_eq,below_eq,NodeDecl.grow_fields]

end Schema

section

variable {fields grown : List Model.Field} (subset : fields ⊆ grown)
  (distinct : (grown.map (·.name)).Nodup)

include subset distinct

theorem bindField_of_subset {name : String} {expected : Primitive} {optional : Bool}
    (bound : bindField fields name expected = .ok optional) :
    bindField grown name expected = .ok optional := by
  unfold bindField at bound ⊢
  cases found : fields.find? (·.name == name) with
  | none => simp [found] at bound
  | some field =>
    have member := subset (List.mem_of_find?_eq_some found)
    have named : field.name = name := by simpa using List.find?_some found
    have found' : grown.find? (·.name == name) = some field := by
      rw [← named]
      exact find?_of_mem (·.name) member fun other inside =>
        List.inj_on_of_nodup_map distinct inside member
    rw [found] at bound
    rw [found']
    exact bound

/-- A pair that is bound stays bound to its fields when others join them. -/
theorem ManglePair.bind_of_subset {pair : ManglePair} {cls : String}
    (bound : (pair.bind cls fields).2 = []) : pair.bind cls grown = pair.bind cls fields := by
  obtain ⟨apart,⟨nameOptional,name⟩,flagOptional,flag⟩ := (pair.bind_nil_iff cls fields).mp bound
  have name' := bindField_of_subset subset distinct name
  have flag' := bindField_of_subset subset distinct flag
  simp only [ManglePair.bind,apart,if_false,name,flag,name',flag']

end

namespace Schema

variable {schema : Schema} {externals : NameSet} {node owner : NodeDecl} {chain : List NodeDecl}
  {field : FieldDecl}

section

variable (ok : schema.Acceptable externals)
  (ok' : (schema.addField owner.name field).Acceptable externals) (member : owner ∈ schema.nodes)

include ok ok'

theorem fields_inserted (line : schema.HasChain node chain) (inside : owner ∈ chain) :
    Inserted (schema.record owner).fields [(FlatField.mk field owner.name).resolved]
      (schema.record node).fields
      ((schema.addField owner.name field).record (node.grow owner.name field)).fields := by
  obtain ⟨part,line',initial⟩ := line.prefix_of_mem inside
  rw [ok.fields_eq line,ok.fields_eq line',ok'.fields_eq (line.grow owner.name field)]
  exact (declaredFields_grow ok.names field line line' initial).map _

include member

theorem fields_unchanged (line : schema.HasChain node chain) (outside : owner ∉ chain) :
    ((schema.addField owner.name field).record (node.grow owner.name field)).fields =
      (schema.record node).fields := by
  rw [ok.fields_eq line,ok'.fields_eq (line.grow owner.name field),
    map_grow_eq ok.names field member line.subset outside]

theorem fields_subset (line : schema.HasChain node chain) :
    (schema.record node).fields ⊆
      ((schema.addField owner.name field).record (node.grow owner.name field)).fields := by
  by_cases inside : owner ∈ chain
  · exact (fields_inserted ok ok' line inside).subset
  · rw [fields_unchanged ok ok' member line inside]
    exact fun _ => id

theorem mangle?_addField (line : schema.HasChain node chain) :
    (schema.addField owner.name field).hierarchy.mangle? (chain.map (·.grow owner.name field)) =
      schema.hierarchy.mangle? chain := by
  simp only [Hierarchy.mangle?,List.find?_map,Function.comp_def,NodeDecl.grow_indicators]
  cases found : chain.find? (·.indicators.mangle.isSome) with
  | none => rfl
  | some bearer =>
    have bears : bearer.indicators.mangle.isSome = true := by simpa using List.find?_some found
    obtain ⟨pair,declared⟩ := Option.isSome_iff_exists.mp bears
    obtain ⟨part,line',_⟩ := line.prefix_of_mem (List.mem_of_find?_eq_some found)
    have same := ManglePair.bind_of_subset (fields_subset ok ok' member line')
      (Hierarchy.resolvedFields_nodup _ _) (ok.bound line' declared)
    simp only [Option.map_some,Option.bind_eq_bind,Option.bind_some,NodeDecl.grow_indicators,
      declared,NodeDecl.grow_name]
    exact congrArg Prod.fst same

/-- All but the fields of a record, and what follows from them, is as before. -/
theorem record_addField (line : schema.HasChain node chain) :
    (schema.addField owner.name field).record (node.grow owner.name field) =
      (schema.hierarchy.layout node).resolved (node.superclass.filter schema.hierarchy.contains)
        ((schema.addField owner.name field).record (node.grow owner.name field)).fields
        (schema.hierarchy.mangle? chain) := by
  have contains : (schema.addField owner.name field).hierarchy.contains =
      schema.hierarchy.contains := funext (schema.declares_addField owner.name field)
  have binding := mangle?_addField ok ok' member line
  rw [← schema.hierarchy.chain_eq ok.names line] at binding ⊢
  simp only [record,Hierarchy.resolveClass,Layout.resolved,Layout.name,Hierarchy.layout,contains,
    chain_addField,binding,subclasses_addField,NodeDecl.grow_name,NodeDecl.grow_superclass,
    NodeDecl.grow_doc,List.map_map,List.any_map,Function.comp_def,NodeDecl.grow_indicators]

theorem record_unchanged (line : schema.HasChain node chain) (outside : owner ∉ chain) :
    (schema.addField owner.name field).record (node.grow owner.name field) =
      schema.record node := by
  rw [record_addField ok ok' member line,fields_unchanged ok ok' member line outside,
    ← schema.hierarchy.chain_eq ok.names line]
  rfl

end

end Schema

namespace Model.Class

variable {home cls grown : Class} {entry : Field}

theorem Gains.of_fields (homeOk : home.Consistent) (ok : cls.Consistent) (ok' : grown.Consistent)
    (fields : Inserted home.fields [entry] cls.fields grown.fields)
    (rest : { grown with fields := [], params := [], traversal := [], cloneRules := [] } =
      { cls with fields := [], params := [], traversal := [], cloneRules := [] }) :
    home.Gains entry cls grown where
  fields := fields
  cloneRules := by
    rw [homeOk.cloneRules,ok.cloneRules,ok'.cloneRules]
    exact fields.map _
  deferred deferred := by
    have kept := fields.filter (·.policy.bound)
    rw [List.filter_singleton,deferred] at kept
    rw [ok.params,ok'.params,kept.eq_of_nothing]
  given bound := by
    have kept := fields.filter (·.policy.bound)
    rw [List.filter_singleton,bound] at kept
    rw [homeOk.params,ok.params,ok'.params]
    exact kept.map _
  unvisited hidden := by
    have kept := fields.filter fun field => field.policy.visitable && field.kind.isReference
    rw [List.filter_singleton,Bool.and_eq_false_iff.mpr hidden] at kept
    rw [ok.traversal,ok'.traversal,kept.eq_of_nothing]
  visited visitable reference := by
    have kept := fields.filter fun field => field.policy.visitable && field.kind.isReference
    rw [List.filter_singleton,visitable,reference] at kept
    rw [homeOk.traversal,ok.traversal,ok'.traversal]
    exact kept.map _
  rest := rest

end Model.Class

namespace Schema

variable {schema : Schema} {externals : NameSet} {node owner : NodeDecl} {chain : List NodeDecl}
  {field : FieldDecl}

theorem record_gains (ok : schema.Acceptable externals)
    (ok' : (schema.addField owner.name field).Acceptable externals)
    (line : schema.HasChain node chain) (inside : owner ∈ chain) :
    (schema.record owner).Gains (FlatField.mk field owner.name).resolved (schema.record node)
      ((schema.addField owner.name field).record (node.grow owner.name field)) := by
  obtain ⟨part,line',_⟩ := line.prefix_of_mem inside
  refine .of_fields (ok.records line').toConsistent (ok.records line).toConsistent
    (ok'.records (line.grow owner.name field)).toConsistent
    (fields_inserted ok ok' line inside) ?_
  rw [record_addField ok ok' line'.member line,← schema.hierarchy.chain_eq ok.names line]
  rfl

theorem mem_externals_addField (ok : schema.Acceptable externals)
    (ok' : (schema.addField owner.name field).Acceptable externals) (member : owner ∈ schema.nodes)
    (name : String) :
    name ∈ ((schema.addField owner.name field).resolvedModel externals).externals ↔
      name ∈ (schema.resolvedModel externals).externals ∨
        field.kind = .primitive (.external name) := by
  rw [ok.mem_externals,ok'.mem_externals]
  constructor
  · rintro ⟨_,declared,decl,inside,external⟩
    obtain ⟨node,member',rfl⟩ := List.mem_map.mp declared
    by_cases same : node = owner
    · rw [same,NodeDecl.grow_fields,List.mem_append,List.mem_singleton] at inside
      obtain earlier | rfl := inside
      · exact .inl ⟨owner,member,decl,earlier,external⟩
      · exact .inr external
    · have apart : node.name ≠ owner.name :=
        fun named => same (eq_of_name ok.names member' member named)
      rw [NodeDecl.grow_other field apart] at inside
      exact .inl ⟨node,member',decl,inside,external⟩
  · rintro (⟨node,member',decl,inside,external⟩ | external)
    · refine ⟨_,List.mem_map_of_mem member',decl,?_,external⟩
      unfold NodeDecl.grow
      split
      · exact List.mem_append_left _ inside
      · exact inside
    · refine ⟨_,List.mem_map_of_mem member,field,?_,external⟩
      rw [NodeDecl.grow_fields]
      simp

/-- A field more in one class shows in the record of that class and of the classes below alone. Each
takes it in right behind what it has from the class and from above. -/
theorem resolve_addField {model grown : Model} (member : owner ∈ schema.nodes)
    (before : schema.resolveWith externals = .ok model)
    (after : (schema.addField owner.name field).resolveWith externals = .ok grown) :
    grown.root = model.root ∧
      (∀ name, name ∈ grown.externals ↔
        name ∈ model.externals ∨ field.kind = .primitive (.external name)) ∧
      ∃ home ∈ model.classes, home.name = owner.name ∧
        ∃ entry, field.RecordedAs owner.name entry ∧
          List.Forall₂ (fun cls new => ∃ node ∈ schema.nodes, node.name = cls.name ∧
            (node = owner ∨ schema.Ancestor node owner → home.Gains entry cls new) ∧
            (¬ (node = owner ∨ schema.Ancestor node owner) → new = cls))
            model.classes grown.classes := by
  obtain ⟨ok,rfl⟩ := resolveWith_eq_ok.mp before
  obtain ⟨ok',rfl⟩ := resolveWith_eq_ok.mp after
  obtain ⟨part,line'⟩ := (acyclic_iff ok.names).mp ok.acyclic owner member
  refine ⟨rfl,mem_externals_addField ok ok' member,schema.record owner,
    (mem_resolvedModel ok.names).mpr ⟨owner,part,line',rfl⟩,rfl,
    _,(FlatField.mk field owner.name).recordedAs,?_⟩
  have order : (schema.addField owner.name field).hierarchy.order =
      schema.hierarchy.order.map (·.grow owner.name field) :=
    schema.preorder_addField owner.name field
  simp only [resolvedModel,Hierarchy.layouts,order,List.map_map,List.forall₂_map_left_iff,
    List.forall₂_map_right_iff]
  refine List.forall₂_same.mpr fun node reached => ?_
  obtain ⟨chain,line⟩ := (mem_preorder ok.names).mp reached
  refine ⟨node,line.member,rfl,?_⟩
  rw [← line.mem_iff ok.names]
  exact ⟨record_gains ok ok' line,record_unchanged ok ok' member line⟩

def growing : Schema where
  root := some "Node"
  nodes := [
    { name := "Method"
      superclass := some "Symbol"
      fields := [{ name := "body", kind := .single "Block" }] },
    { name := "Symbol"
      superclass := some "Node"
      fields := [
        { name := "text", kind := .primitive .text },
        { name := "extern", kind := .primitive .flag }]
      indicators := { mangle := some ⟨"text","extern"⟩ } },
    { name := "Block"
      superclass := some "Node" }]

def grownUp : Schema := growing.addField "Symbol" { name := "scope", kind := .single "Block" }

theorem resolve_addField_growing :
    ∃ owner ∈ growing.nodes, ∃ model grown, owner.name = "Symbol" ∧
      growing.resolveWith {} = .ok model ∧ grownUp.resolveWith {} = .ok grown ∧
      ∃ home ∈ model.classes, home.name = owner.name ∧ ∃ entry : Model.Field, entry.name = "scope" ∧
        ∃ below below', model.classes[1]? = some below ∧ grown.classes[1]? = some below' ∧
          below.name = "Method" ∧ home.Gains entry below below' := by
  have member : growing.nodes[1] ∈ growing.nodes := List.getElem_mem _
  have before : growing.resolveWith {} = .ok (growing.resolvedModel {}) := rfl
  have after : grownUp.resolveWith {} = .ok (grownUp.resolvedModel {}) := rfl
  obtain ⟨_,_,home,inside,named,entry,recorded,classes⟩ := resolve_addField member before after
  have below : growing.Ancestor growing.nodes[0] growing.nodes[1] :=
    .single ⟨List.getElem_mem _,member,rfl⟩
  obtain ⟨node,declared,same,gains,_⟩ :=
    (List.forall₂_iff_get.mp classes).2 1 (by decide) (by decide)
  have names : (growing.nodes.map (·.name)).Nodup := by decide
  have method : node.name = "Method" := same
  obtain rfl : node = growing.nodes[0] := eq_of_name names declared (List.getElem_mem _) method
  exact ⟨_,member,_,_,rfl,before,after,home,inside,named,entry,recorded.name,_,_,
    List.getElem?_eq_getElem (by decide),List.getElem?_eq_getElem (by decide),rfl,
    gains (.inr below)⟩

end Schema

end NodeModel
