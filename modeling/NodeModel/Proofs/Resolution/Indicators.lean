import NodeModel.Proofs.Resolution.Records

/-! Indicators along a chain. A class bears what it or a class above it declares. A mangle pair is
bound once, among the fields of the class that declares it, and the binding holds for every class
below because these keep the fields. -/
namespace NodeModel

namespace Model

/-- Exactly one field of the class has the name, and it is of the kind and optional as said. -/
def Class.HasOne (cls : Class) (name : String) (kind : Primitive) (optional : Bool) : Prop :=
  ∃ field, (∀ other, other ∈ cls.fields ∧ other.name = name ↔ other = field) ∧
    field.kind = .primitive kind ∧ field.policy.optional = optional

structure Mangle.BoundIn (mangle : Mangle) (cls : Class) : Prop where
  apart : mangle.nameField ≠ mangle.flagField
  name : cls.HasOne mangle.nameField .text mangle.nameOptional
  flag : cls.HasOne mangle.flagField .flag mangle.flagOptional

/-- The indicators of a class against those declared from `node` upwards. -/
structure Class.Indicates (cls : Class) (model : Model) (schema : Schema) (node : NodeDecl) :
    Prop where
  generic : cls.indicators.generic = true ↔
    ∃ above, Relation.ReflTransGen schema.Extends node above ∧ above.indicators.generic = true
  unique : cls.indicators.unique = true ↔
    ∃ above, Relation.ReflTransGen schema.Extends node above ∧ above.indicators.unique = true
  declared : cls.indicators.mangle.isSome = true ↔
    ∃ owner, Relation.ReflTransGen schema.Extends node owner ∧
      owner.indicators.mangle.isSome = true
  /-- No second class of the chain declares a pair. -/
  alone : ∀ owner other, Relation.ReflTransGen schema.Extends node owner →
    Relation.ReflTransGen schema.Extends node other → owner.indicators.mangle.isSome = true →
    other.indicators.mangle.isSome = true → owner = other
  /-- The class that declares the pair has the same binding, which names the fields of the pair. -/
  inherited : ∀ owner pair, Relation.ReflTransGen schema.Extends node owner →
    owner.indicators.mangle = some pair → ∃ home mangle, model.class? owner.name = some home ∧
      home.indicators.mangle = some mangle ∧ cls.indicators.mangle = some mangle ∧
      mangle.nameField = pair.nameField ∧ mangle.flagField = pair.flagField
  bound : ∀ mangle, cls.indicators.mangle = some mangle → mangle.BoundIn cls

theorem Class.HasOne.field? {cls : Class} {name : String} {kind : Primitive} {optional : Bool}
    (one : cls.HasOne name kind optional) : ∃ field, cls.field? name = some field := by
  obtain ⟨field,only,_⟩ := one
  obtain ⟨member,named⟩ := (only field).mpr rfl
  rw [← Option.isSome_iff_exists,Class.field?,List.find?_isSome]
  exact ⟨field,member,beq_iff_eq.mpr named⟩

end Model

theorem ManglePair.bind_eq_some_iff {pair : ManglePair} {cls : String} {fields : List Model.Field}
    {mangle : Model.Mangle} :
    (pair.bind cls fields).1 = some mangle ↔
      pair.nameField ≠ pair.flagField ∧ mangle.nameField = pair.nameField ∧
      mangle.flagField = pair.flagField ∧
      bindField fields pair.nameField .text = .ok mangle.nameOptional ∧
      bindField fields pair.flagField .flag = .ok mangle.flagOptional := by
  unfold ManglePair.bind
  by_cases same : pair.nameField = pair.flagField
  · simp [same]
  · simp only [same,if_false,ne_eq,not_false_eq_true,true_and]
    split
    next name flag =>
      simp only [name,flag,Except.ok.injEq,Option.some.injEq]
      constructor
      · rintro rfl
        exact ⟨rfl,rfl,rfl,rfl⟩
      · obtain ⟨nameField,flagField,nameOptional,flagOptional⟩ := mangle
        rintro ⟨rfl,rfl,rfl,rfl⟩
        rfl
    all_goals simp [*]

namespace Schema

variable {schema : Schema} {externals : NameSet} {node owner : NodeDecl} {chain : List NodeDecl}
  {pair : ManglePair}

/-- What some class of a chain declares, the last class or an ancestor of it declares. -/
theorem HasChain.any_iff (names : schema.DistinctNames) (line : schema.HasChain node chain)
    (declares : NodeDecl → Bool) : chain.any declares = true ↔
      ∃ above, Relation.ReflTransGen schema.Extends node above ∧ declares above = true := by
  simp only [List.any_eq_true,line.mem_iff_reaches names]

namespace Acceptable

theorem bound (ok : schema.Acceptable externals) (line : schema.HasChain node chain)
    (declared : node.indicators.mangle = some pair) :
    (pair.bind node.name (schema.hierarchy.resolvedFields node)).2 = [] := by
  have distinct := ok.fields node chain line
  rw [← declaredFields_names] at distinct
  have bindable := ok.pairs node chain pair line declared
  have clean := (schema.hierarchy.mangleDefects_nil_iff ok.names line distinct).mpr
    fun other same => Option.some.inj (declared.symm.trans same) ▸ bindable
  have alone : (schema.hierarchy.layout node).chain.dropLast.any
      (·.indicators.mangle.isSome) = false := by
    rw [Hierarchy.layout_chain schema.hierarchy ok.names line,List.any_eq_false]
    intro above inside
    simp [bindable.alone above ((line.mem_dropLast_iff ok.names).mp inside)]
  have own : (schema.hierarchy.layout node).node.indicators.mangle = some pair := declared
  simp only [Hierarchy.mangleDefects,own,alone,Bool.false_eq_true,if_false] at clean
  exact clean

theorem exists_binding (ok : schema.Acceptable externals) (line : schema.HasChain node chain)
    (declared : node.indicators.mangle = some pair) :
    ∃ mangle, (pair.bind node.name (schema.hierarchy.resolvedFields node)).1 = some mangle := by
  obtain ⟨apart,⟨nameOptional,name⟩,flagOptional,flag⟩ :=
    (pair.bind_nil_iff node.name _).mp (ok.bound line declared)
  exact ⟨⟨pair.nameField,pair.flagField,nameOptional,flagOptional⟩,
    ManglePair.bind_eq_some_iff.mpr ⟨apart,rfl,rfl,name,flag⟩⟩

/-- A class with a pair has none above it. -/
theorem eq_of_above (ok : schema.Acceptable externals) (line : schema.HasChain node chain)
    (above : owner ∈ chain) (declares : owner.indicators.mangle.isSome = true)
    (declares' : node.indicators.mangle.isSome = true) : owner = node := by
  obtain ⟨pair,declared⟩ := Option.isSome_iff_exists.mp declares'
  rcases (line.mem_iff ok.names).mp above with same | path
  · exact same.symm
  · have silent := (ok.pairs node chain pair line declared).alone owner path
    simp [silent] at declares

theorem owner_unique (ok : schema.Acceptable externals) (line : schema.HasChain node chain)
    {other : NodeDecl} (above : owner ∈ chain) (above' : other ∈ chain)
    (declares : owner.indicators.mangle.isSome = true)
    (declares' : other.indicators.mangle.isSome = true) : owner = other := by
  obtain ⟨part,upper,initial⟩ := line.prefix_of_mem above
  obtain ⟨part',upper',initial'⟩ := line.prefix_of_mem above'
  -- Both stand on one chain, so one of them is above the other.
  rcases List.prefix_or_prefix_of_prefix initial initial' with shorter | longer
  · exact ok.eq_of_above upper' (shorter.subset upper.self_mem) declares declares'
  · exact (ok.eq_of_above upper (longer.subset upper'.self_mem) declares' declares).symm

theorem record_mangle (ok : schema.Acceptable externals) (line : schema.HasChain node chain) :
    (schema.record node).indicators.mangle = schema.hierarchy.mangle? chain := by
  rw [← schema.hierarchy.chain_eq ok.names line]
  rfl

theorem exists_owner (ok : schema.Acceptable externals) (line : schema.HasChain node chain)
    {mangle : Model.Mangle} (bound : (schema.record node).indicators.mangle = some mangle) :
    ∃ owner ∈ chain, ∃ pair, owner.indicators.mangle = some pair := by
  rw [ok.record_mangle line] at bound
  obtain ⟨owner,found,bound⟩ := Option.bind_eq_some_iff.mp bound
  obtain ⟨pair,declared,_⟩ := Option.bind_eq_some_iff.mp bound
  exact ⟨owner,List.mem_of_find?_eq_some found,pair,declared⟩

/-- Whatever stands between, the binding of a class is that of the class with the pair. -/
theorem mangle_eq (ok : schema.Acceptable externals) (line : schema.HasChain node chain)
    (above : owner ∈ chain) (declared : owner.indicators.mangle = some pair) :
    (schema.record node).indicators.mangle =
      (pair.bind owner.name (schema.hierarchy.resolvedFields owner)).1 := by
  have declares : owner.indicators.mangle.isSome = true := by simp [declared]
  obtain ⟨first,found⟩ := Option.isSome_iff_exists.mp
    (List.find?_isSome.mpr ⟨owner,above,declares⟩ :
      (chain.find? (·.indicators.mangle.isSome)).isSome = true)
  obtain rfl := ok.owner_unique line (List.mem_of_find?_eq_some found) above
    (by simpa using List.find?_some found) declares
  rw [ok.record_mangle line,Hierarchy.mangle?,found]
  simp [declared]

/-- A field found among those of a class above is found here, as the list only grows. -/
theorem hasOne_of_bindField (ok : schema.Acceptable externals) (line : schema.HasChain node chain)
    (above : owner ∈ chain) {name : String} {expected : Primitive} {optional : Bool}
    (found : bindField (schema.hierarchy.resolvedFields owner) name expected = .ok optional) :
    (schema.record node).HasOne name expected optional := by
  obtain ⟨part,upper,initial⟩ := line.prefix_of_mem above
  obtain ⟨field,inside,named,kind,option⟩ :=
    (bindField_eq_ok_iff (Hierarchy.resolvedFields_nodup _ owner)).mp found
  have member : field ∈ (schema.record node).fields :=
    (ok.continues line upper initial).fields.subset inside
  refine ⟨field,fun other => ⟨?_,?_⟩,kind,option⟩
  · rintro ⟨there,same⟩
    exact List.inj_on_of_nodup_map (ok.records line).names there member (same.trans named.symm)
  · rintro rfl
    exact ⟨member,named⟩

theorem boundIn (ok : schema.Acceptable externals) (line : schema.HasChain node chain)
    {mangle : Model.Mangle} (bound : (schema.record node).indicators.mangle = some mangle) :
    mangle.BoundIn (schema.record node) := by
  obtain ⟨owner,above,pair,declared⟩ := ok.exists_owner line bound
  rw [ok.mangle_eq line above declared,ManglePair.bind_eq_some_iff] at bound
  obtain ⟨apart,name,flag,nameFound,flagFound⟩ := bound
  rw [← name] at apart nameFound
  rw [← flag] at apart flagFound
  exact ⟨apart,ok.hasOne_of_bindField line above nameFound,
    ok.hasOne_of_bindField line above flagFound⟩

theorem indicates (ok : schema.Acceptable externals) (line : schema.HasChain node chain) :
    (schema.record node).Indicates (schema.resolvedModel externals) schema node := by
  have flags : (schema.record node).indicators.generic = chain.any (·.indicators.generic) ∧
      (schema.record node).indicators.unique = chain.any (·.indicators.unique) := by
    rw [← schema.hierarchy.chain_eq ok.names line]
    exact ⟨rfl,rfl⟩
  have reaches {above : NodeDecl} :
      above ∈ chain ↔ Relation.ReflTransGen schema.Extends node above :=
    line.mem_iff_reaches ok.names
  constructor
  case generic => rw [flags.1,line.any_iff ok.names]
  case unique => rw [flags.2,line.any_iff ok.names]
  case declared =>
    simp only [← reaches,Option.isSome_iff_exists]
    constructor
    · rintro ⟨mangle,bound⟩
      exact ok.exists_owner line bound
    · rintro ⟨owner,above,pair,declared⟩
      obtain ⟨part,upper,_⟩ := line.prefix_of_mem above
      rw [ok.mangle_eq line above declared]
      exact ok.exists_binding upper declared
  case alone =>
    intro owner other path path'
    exact ok.owner_unique line (reaches.mpr path) (reaches.mpr path')
  case inherited =>
    intro owner pair path declared
    have above := reaches.mpr path
    obtain ⟨part,upper,_⟩ := line.prefix_of_mem above
    obtain ⟨mangle,bound⟩ := ok.exists_binding upper declared
    obtain ⟨_,name,flag,_⟩ := ManglePair.bind_eq_some_iff.mp bound
    have member : schema.record owner ∈ (schema.resolvedModel externals).classes :=
      (mem_resolvedModel ok.names).mpr ⟨owner,part,upper,rfl⟩
    exact ⟨schema.record owner,mangle,ok.consistent.class?_eq_some member,
      (ok.mangle_eq upper upper.self_mem declared).trans bound,
      (ok.mangle_eq line above declared).trans bound,name,flag⟩
  case bound => exact fun mangle => ok.boundIn line

end Acceptable

/-- In a resolved model a class is generic or unique if it or an ancestor is declared so. It has a
binding if one class of its chain declares a pair; no second one does, both have the same binding,
and the binding is right about the fields of the class. -/
theorem resolveWith_indicates {model : Model} (resolved : schema.resolveWith externals = .ok model) :
    (∀ node ∈ schema.nodes, ∃ cls, model.class? node.name = some cls ∧
      cls.Indicates model schema node) ∧
    ∀ cls ∈ model.classes, ∃ node ∈ schema.nodes, model.class? node.name = some cls := by
  obtain ⟨ok,rfl⟩ := resolveWith_eq_ok.mp resolved
  refine ⟨fun node member => ?_,fun cls member => ?_⟩
  · obtain ⟨chain,line⟩ := (acyclic_iff ok.names).mp ok.acyclic node member
    have listed : schema.record node ∈ (schema.resolvedModel externals).classes :=
      (mem_resolvedModel ok.names).mpr ⟨node,chain,line,rfl⟩
    exact ⟨_,ok.consistent.class?_eq_some listed,ok.indicates line⟩
  · have found := ok.consistent.class?_eq_some member
    obtain ⟨node,chain,line,rfl⟩ := (mem_resolvedModel ok.names).mp member
    exact ⟨node,line.member,found⟩

def marked : Schema where
  nodes := [
    { name := "Local", superclass := some "Scoped", indicators := { generic := true } },
    { name := "Scoped", superclass := some "Variable" },
    { name := "Variable"
      superclass := some "Symbol"
      fields := [{ name := "fixed", kind := .primitive .flag }]
      indicators := { mangle := some ⟨"name","fixed"⟩ } },
    { name := "Symbol"
      fields := [{ name := "name", kind := .primitive .text, policy := { optional := true } }]
      indicators := { unique := true } }]

theorem resolveWith_indicates_marked :
    marked.resolveWith ⟨[]⟩ = .ok (marked.resolvedModel ⟨[]⟩) ∧
    ∃ cls, (marked.resolvedModel ⟨[]⟩).class? "Local" = some cls ∧
      cls.indicators = ⟨true,true,some ⟨"name","fixed",true,false⟩⟩ ∧
      (⟨"name","fixed",true,false⟩ : Model.Mangle).BoundIn cls := by
  have resolved : marked.resolveWith ⟨[]⟩ = .ok (marked.resolvedModel ⟨[]⟩) := by rfl
  obtain ⟨cls,found,indicates⟩ := (resolveWith_indicates resolved).1 _ List.mem_cons_self
  have indicators : ((marked.resolvedModel ⟨[]⟩).class? "Local").map (·.indicators) =
      some ⟨true,true,some ⟨"name","fixed",true,false⟩⟩ := by decide
  rw [found,Option.map_some,Option.some.injEq] at indicators
  exact ⟨resolved,cls,found,indicators,indicates.bound _ (by rw [indicators])⟩

end Schema

end NodeModel
