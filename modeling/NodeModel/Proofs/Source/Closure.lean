import NodeModel.Proofs.Arena.Run
import NodeModel.Proofs.Resolution.Leaves
import NodeModel.Proofs.Source.Outline
import NodeModel.Proofs.Source.Symbols
import NodeModel.Target

/-! The emitted file is closed: what the types and expressions of its classes mention is imported or
declared in the same file. -/
namespace NodeModel.Source

/-- A declaration stands among the lines, from its head to its closing brace. -/
def HasBlock (lines : List String) (head : String) (body : List String) : Prop :=
  braced head body <:+: lines

theorem HasBlock.within {lines part : List String} {head : String} {body : List String}
    (found : HasBlock part head body) (inside : part <:+: lines) : HasBlock lines head body :=
  found.trans inside

theorem hasBlock_block (head : String) (body : List String) :
    HasBlock (block head body) head body := List.infix_append_left

structure IsNodeType (lines : List String) (type : String) : Prop where
  methods : ∃ methods, HasBlock lines s!"impl {type}" methods ∧
    (∃ (visit : String) (body : List String), HasBlock methods
      s!"pub fn children(&self, {visit}: &mut dyn FnMut(NodeRef<'_>))" body) ∧
    ∃ body, HasBlock methods "pub fn structural_clone(&self) -> Self" body
  view : ∃ view, HasBlock lines s!"impl AsNodeRef for {type}" view ∧
    ∃ body, HasBlock view "fn as_node_ref(&self) -> NodeRef<'_>" body

theorem IsNodeType.within {lines part : List String} {type : String} (found : IsNodeType part type)
    (inside : part <:+: lines) : IsNodeType lines type where
  methods := by
    obtain ⟨methods,block,rest⟩ := found.methods
    exact ⟨methods,block.within inside,rest⟩
  view := by
    obtain ⟨view,block,rest⟩ := found.view
    exact ⟨view,block.within inside,rest⟩

/-- The struct of a class or the enum of a category, with its methods. -/
def Declares (lines : List String) : Target → Prop
  | .struct cls => (∃ fields, HasBlock lines ("pub struct " ++ cls) fields) ∧ IsNodeType lines cls
  | .family cls => (∃ variants, HasBlock lines ("pub enum " ++ ("Any" ++ cls)) variants) ∧
      IsNodeType lines ("Any" ++ cls)

def Provides (lines : List String) : Symbol → Prop
  | .cell => "use std::cell::OnceCell;" ∈ lines
  | .shared => "use std::rc::Rc;" ∈ lines ∨ "use std::rc::\x7bRc, Weak\x7d;" ∈ lines
  | .weak => "use std::rc::\x7bRc, Weak\x7d;" ∈ lines
  | .externalCopy => HasBlock lines "pub trait ExternalCopy" ["fn external_copy(&self) -> Self;"]
  | .mapCell => "use std::cell::OnceCell;" ∈ lines ∧ ∃ body, HasBlock lines
      "fn map_cell<T, U>(cell: &OnceCell<T>, f: impl FnOnce(&T) -> U) -> OnceCell<U>" body
  | .external name => ∃ names, name ∈ names ∧
      "use super::externals::\x7b" ++ ", ".intercalate names ++ "\x7d;" ∈ lines
  | .node target => Declares lines target

namespace ClassItem

variable (item : ClassItem)

theorem hasStruct :
    HasBlock item.lines s!"pub struct {item.name}" (item.fields.flatMap (·.lines)) := by
  refine (hasBlock_block _ _).within ?_
  iterate 2 apply List.infix_append_of_infix_left
  exact List.infix_append_right

theorem hasMethods : HasBlock item.lines s!"impl {item.name}" item.methodLines :=
  (hasBlock_block _ _).within (List.infix_append_of_infix_left List.infix_append_right)

theorem hasView (leaf : item.leaf = true) : HasBlock item.lines s!"impl AsNodeRef for {item.name}"
    (viewLines [s!"NodeRef::{item.name}(self)"]) := by
  rw [lines,if_pos leaf]
  exact (hasBlock_block _ _).within List.infix_append_right

theorem isNodeType (leaf : item.leaf = true) : IsNodeType item.lines item.name where
  methods := ⟨item.methodLines,item.hasMethods,⟨_,_,childrenLines_part⟩,_,
    List.infix_append_right.trans cloneLines_part⟩
  view := ⟨_,item.hasView leaf,_,List.infix_refl _⟩

end ClassItem

namespace FamilyItem

variable (family : FamilyItem)

theorem hasEnum : HasBlock family.lines s!"pub enum {family.name}"
    (family.leaves.map fun leaf => s!"{leaf}({leaf}),") := by
  refine (hasBlock_block _ _).within ?_
  iterate 3 apply List.infix_append_of_infix_left
  exact List.infix_append_right

theorem hasMethods : HasBlock family.lines s!"impl {family.name}" family.methodLines := by
  refine (hasBlock_block _ _).within ?_
  iterate 2 apply List.infix_append_of_infix_left
  exact List.infix_append_right

theorem hasChildren : HasBlock family.methodLines (childrenHead "visit")
    (armLines family.leaves fun leaf => s!"Self::{leaf}(node) => node.children(visit),") := by
  iterate 2 apply List.infix_append_of_infix_left
  exact List.infix_append_right

theorem isNodeType : IsNodeType family.lines family.name where
  methods := ⟨_,family.hasMethods,⟨_,_,family.hasChildren⟩,_,List.infix_append_right⟩
  view := ⟨_,(hasBlock_block _ _).within (List.infix_append_of_infix_left List.infix_append_right),
    _,List.infix_refl _⟩

end FamilyItem

theorem Needs.hasExternalCopy {needs : Needs} (wanted : needs.externalCopy = true) :
    HasBlock needs.preludeLines "pub trait ExternalCopy" ["fn external_copy(&self) -> Self;"] := by
  refine (hasBlock_block _ _).within ?_
  rw [preludeLines,if_pos wanted]
  iterate 3 apply List.infix_append_of_infix_left
  exact List.infix_append_of_infix_right List.infix_append_right

theorem Needs.hasMapCell {needs : Needs} (wanted : needs.mappedCell = true) :
    ∃ body, HasBlock needs.preludeLines
      "fn map_cell<T, U>(cell: &OnceCell<T>, f: impl FnOnce(&T) -> U) -> OnceCell<U>" body := by
  rw [preludeLines,if_pos wanted]
  exact ⟨_,(hasBlock_block _ _).within (List.infix_append_of_infix_left
    (List.infix_append_of_infix_left List.infix_append_right))⟩

/-- What setters and views name is always there. -/
theorem Needs.hasSupport (needs : Needs) :
    (∃ body, HasBlock needs.preludeLines "pub struct AlreadyAssigned" body) ∧
      ∃ body, HasBlock needs.preludeLines "pub trait AsNodeRef" body := by
  refine ⟨⟨["pub class: &'static str,","pub field: &'static str,"],(hasBlock_block _ _).within ?_⟩,
    _,(hasBlock_block _ _).within List.infix_append_right⟩
  iterate 6 apply List.infix_append_of_infix_left
  exact List.infix_append_right

theorem hasNodeRef (leaves : List String) : HasBlock (nodeRefLines leaves) "pub enum NodeRef<'a>"
    (leaves.map fun leaf => s!"{leaf}(&'a {leaf}),") := by
  refine (hasBlock_block _ _).within ?_
  iterate 3 apply List.infix_append_of_infix_left
  exact List.infix_append_right

theorem infix_flatMap {α : Type} {items : List α} {item : α} (member : item ∈ items)
    (lines : α → List String) : lines item <:+: items.flatMap lines :=
  List.infix_of_mem_flatten (List.mem_map_of_mem member)

namespace SourceFile

variable {file : SourceFile}

theorem lines_eq (filled : file.classes ≠ []) : file.lines =
    "// Auto-generated by nodegen from the resolved node model. Do not edit." ::
      ([""] ++ file.needs.importLines ++ externalImport file.externals ++ [""] ++
      file.needs.preludeLines ++ nodeRefLines file.leaves ++
      file.classes.flatMap (·.lines) ++ file.families.flatMap (·.lines)) :=
  congrArg _ (if_neg (by simpa using filled))

theorem import_mem (filled : file.classes ≠ []) {line : String}
    (inside : line ∈ file.needs.importLines ∨ line ∈ externalImport file.externals) :
    line ∈ file.lines := by
  rw [lines_eq filled]
  rcases inside with std | external
  · simp only [List.mem_cons,List.mem_append,std,or_true,true_or]
  · simp only [List.mem_cons,List.mem_append,external,or_true,true_or]

theorem prelude_part (filled : file.classes ≠ []) : file.needs.preludeLines <:+: file.lines := by
  rw [lines_eq filled]
  apply List.infix_cons
  iterate 3 apply List.infix_append_of_infix_left
  exact List.infix_append_right

theorem nodeRef_part (filled : file.classes ≠ []) : nodeRefLines file.leaves <:+: file.lines := by
  rw [lines_eq filled]
  apply List.infix_cons
  iterate 2 apply List.infix_append_of_infix_left
  exact List.infix_append_right

theorem class_part {item : ClassItem} (member : item ∈ file.classes) :
    item.lines <:+: file.lines := by
  rw [lines_eq (List.ne_nil_of_mem member)]
  apply List.infix_cons
  apply List.infix_append_of_infix_left
  exact List.infix_append_of_infix_right (infix_flatMap member _)

theorem family_part (filled : file.classes ≠ []) {family : FamilyItem}
    (member : family ∈ file.families) : family.lines <:+: file.lines := by
  rw [lines_eq filled]
  apply List.infix_cons
  exact List.infix_append_of_infix_right (infix_flatMap member _)

end SourceFile

section

variable {model : Model} {cls : Model.Class} {field : Model.Field}

theorem filled_of_mem (member : cls ∈ model.classes) : (SourceFile.of model).classes ≠ [] :=
  List.ne_nil_of_mem (List.mem_map_of_mem member)

theorem class_part_of (member : cls ∈ model.classes) :
    (ClassItem.of model cls).lines <:+: (SourceFile.of model).lines :=
  SourceFile.class_part (List.mem_map_of_mem member)

theorem Sound.provides_node (sound : Sound model) (member : cls ∈ model.classes) :
    Provides (SourceFile.of model).lines (.node (.of model cls.name)) := by
  rw [Target.of,sound.class?_eq_some member]
  dsimp only
  split
  next leaf =>
    have inside := class_part_of member
    exact ⟨⟨_,(ClassItem.of model cls).hasStruct.within inside⟩,
      ((ClassItem.of model cls).isNodeType leaf).within inside⟩
  next category =>
    have listed : FamilyItem.of model cls ∈ (SourceFile.of model).families :=
      List.mem_map_of_mem (List.mem_filter.mpr ⟨member,by simpa using category⟩)
    have inside := SourceFile.family_part (filled_of_mem member) listed
    exact ⟨⟨_,(FamilyItem.of model cls).hasEnum.within inside⟩,
      (FamilyItem.of model cls).isNodeType.within inside⟩

/-- What a field asks for is in the file. -/
theorem Sound.provides (sound : Sound model) (member : cls ∈ model.classes)
    (inside : field ∈ cls.fields)
    (known : ∀ name, field.kind = .primitive (.external name) → name ∈ model.externals)
    {symbol : Symbol} (asks : Asks model field symbol) :
    Provides (SourceFile.of model).lines symbol := by
  have filled := filled_of_mem member
  have listed : field ∈ model.classes.flatMap (·.fields) := List.mem_flatMap.mpr ⟨cls,member,inside⟩
  have cell (deferred : field.policy.bound = false) :
      "use std::cell::OnceCell;" ∈ (SourceFile.of model).lines := by
    have wanted : (SourceFile.of model).needs.cell = true :=
      List.any_eq_true.mpr ⟨field,listed,by simp [deferred]⟩
    exact SourceFile.import_mem filled (.inl (by simp [Needs.importLines,wanted]))
  cases symbol with
  | cell => exact cell asks
  | shared =>
    have wanted : (SourceFile.of model).needs.shared = true :=
      List.any_eq_true.mpr ⟨field,listed,by simpa [Asks] using asks⟩
    -- One import serves both pointers if weak ones are in use.
    cases weak : (SourceFile.of model).needs.weak with
    | false =>
      exact .inl (SourceFile.import_mem filled (.inl (by simp [Needs.importLines,wanted,weak])))
    | true => exact .inr (SourceFile.import_mem filled (.inl (by simp [Needs.importLines,weak])))
  | weak =>
    have wanted : (SourceFile.of model).needs.weak = true :=
      List.any_eq_true.mpr ⟨field,listed,asks⟩
    exact SourceFile.import_mem filled (.inl (by simp [Needs.importLines,wanted]))
  | externalCopy =>
    have wanted : (SourceFile.of model).needs.externalCopy = true :=
      List.any_eq_true.mpr ⟨field,listed,by simpa [Asks] using asks⟩
    exact (Needs.hasExternalCopy wanted).within (SourceFile.prelude_part filled)
  | mapCell =>
    have stored : Storage.of field = .cell := storage_of_deferred asks.2
    have wanted : (SourceFile.of model).needs.mappedCell = true :=
      List.any_eq_true.mpr ⟨field,listed,by simp [asks.1,stored]⟩
    obtain ⟨body,block⟩ := Needs.hasMapCell wanted
    exact ⟨cell asks.2,body,block.within (SourceFile.prelude_part filled)⟩
  | external name =>
    have used := known name asks
    refine ⟨model.externals,used,SourceFile.import_mem filled (.inr ?_)⟩
    have some : (SourceFile.of model).externals ≠ [] := List.ne_nil_of_mem used
    rw [externalImport,if_neg (by simpa using some)]
    simp [SourceFile.of]
  | node target =>
    obtain ⟨name,reference,rfl⟩ := asks
    obtain ⟨found,there,rfl⟩ := sound.target member inside reference
    exact sound.provides_node there

end

/-- The heads of all declarations of a class: a struct, its methods, and a view if it is a leaf. -/
def classHeads (cls : Model.Class) : List String :=
  [s!"pub struct {cls.name}",s!"impl {cls.name}"] ++
    if cls.isLeaf then [s!"impl AsNodeRef for {cls.name}"] else []

/-- The heads of all declarations of a category: an enum, its methods, its view and the conversions
from its leaves. -/
def familyHeads (model : Model) (cls : Model.Class) : List String :=
  let name := "Any" ++ cls.name
  [s!"pub enum {name}",s!"impl {name}",s!"impl AsNodeRef for {name}"] ++
  (model.leavesUnder cls.name).map fun leaf => s!"impl From<{leaf.name}> for {name}"

def typeOf (cls : Model.Class) : Target := if cls.isLeaf then .struct cls.name else .family cls.name

def typeName (cls : Model.Class) : String := if cls.isLeaf then cls.name else "Any" ++ cls.name

/-- The type of a reference, before it is wrapped by its storage. -/
def edgeText (field : Model.Field) (type : String) : String :=
  let edge := (if isWeak field then "Weak" else "Rc") ++ "<" ++ type ++ ">"
  if field.kind.isList then "Vec<" ++ edge ++ ">" else edge

/-- The lines of a file in which nothing is left open. -/
structure Closed (schema : Schema) (model : Model) (lines : List String) : Prop where
  names : (model.classes.map (·.name)).Nodup
  /-- Besides imports and fixed support there is nothing but the classes and families. -/
  declarations : ∃ imports support, outline lines = imports ++ support ++
      (model.classes.flatMap classHeads ++
        model.categories.flatMap (familyHeads model)).map opening ∧
    (∀ line ∈ imports, IsImport line) ∧ support.Sublist supportHeads
  support : (∃ body, HasBlock lines "pub struct AlreadyAssigned" body) ∧
    ∃ body, HasBlock lines "pub trait AsNodeRef" body
  /-- One variant for each leaf. -/
  leaves : HasBlock lines "pub enum NodeRef<'a>"
    (model.leaves.map fun leaf => s!"{leaf.name}(&'a {leaf.name}),")
  /-- One variant for each leaf below a category. -/
  families : ∀ cls ∈ model.categories, ∃ node ∈ schema.nodes, node.name = cls.name ∧
    ∃ leaves, schema.LeavesBelow node leaves ∧ leaves ≠ [] ∧
      HasBlock lines ("pub enum " ++ ("Any" ++ cls.name))
        (leaves.map fun leaf => s!"{leaf.name}({leaf.name}),")
  /-- References lead to node types of the file. -/
  references : ∀ cls ∈ model.classes, ∃ body, HasBlock lines s!"pub struct {cls.name}" body ∧
    ∀ field ∈ cls.fields, ∀ name, field.kind.target? = some name →
      ∃ target ∈ model.classes, target.name = name ∧ Provides lines (.node (typeOf target)) ∧
        ∃ visibility : String, s!"{visibility}{fieldIdent field.name}: {(Storage.of field).wrap
          (edgeText field (typeName target))}," ∈ body
  externals : ∀ cls ∈ model.classes, ∀ field ∈ cls.fields, ∀ name,
    field.kind = .primitive (.external name) → Provides lines (.external name)
  /-- The types and expressions that are written out have their symbols in the file. -/
  symbols : ∀ cls ∈ model.classes, (ClassItem.of model cls).lines <:+: lines ∧
    ∀ code ∈ (ClassItem.of model cls).codes, Occurs code.text (ClassItem.of model cls).lines ∧
      code.Within (Provides lines)

theorem declarations_of (model : Model) (filled : (SourceFile.of model).classes ≠ []) :
    outline (SourceFile.of model).lines = (SourceFile.of model).imports ++
      ((SourceFile.of model).needs.heads ++ nodeRefHeads) ++
      (model.classes.flatMap classHeads ++
        model.categories.flatMap (familyHeads model)).map opening := by
  have classes : (SourceFile.of model).classes.flatMap (·.heads) =
      model.classes.flatMap classHeads := List.flatMap_map ..
  have families : (SourceFile.of model).families.flatMap (·.heads) =
      model.categories.flatMap (familyHeads model) := by
    refine (List.flatMap_map ..).trans (List.flatMap_congr fun cls _ => ?_)
    simp only [FamilyItem.heads,FamilyItem.name,familyName,FamilyItem.of,familyHeads,List.map_map,
      Function.comp_def]
  rw [SourceFile.outline_lines _ filled,classes,families]

theorem edgeText_of (model : Model) {field : Model.Field} {name : String}
    (reference : field.kind.target? = some name) :
    (ValueType.of model field).render = edgeText field (Target.of model name).render := by
  unfold ValueType.of edgeText
  cases kind : field.kind with
  | primitive => simp [kind,FieldKind.target?] at reference
  | single target =>
    obtain rfl : target = name := by simpa [kind,FieldKind.target?] using reference
    simp [ValueType.render,pointer,FieldKind.isList,ToString.toString,String.append_assoc]
  | list target =>
    obtain rfl : target = name := by simpa [kind,FieldKind.target?] using reference
    simp [ValueType.render,pointer,FieldKind.isList,ToString.toString,String.append_assoc]

theorem render_typeOf (cls : Model.Class) : (typeOf cls).render = typeName cls := by
  unfold typeOf typeName
  split <;> rfl

theorem Sound.target_of {model : Model} (sound : Sound model) {cls : Model.Class}
    (member : cls ∈ model.classes) : Target.of model cls.name = typeOf cls := by
  rw [Target.of,sound.class?_eq_some member]
  rfl

section

variable {schema : Schema} {externals : NameSet} {model : Model} {cls : Model.Class}

theorem external_known (resolved : schema.resolveWith externals = .ok model)
    (member : cls ∈ model.classes) {field : Model.Field} (inside : field ∈ cls.fields)
    {name : String} (external : field.kind = .primitive (.external name)) :
    name ∈ model.externals := by
  obtain ⟨ok,rfl⟩ := Schema.resolveWith_eq_ok.mp resolved
  obtain ⟨node,chain,line,rfl⟩ := (Schema.mem_resolvedModel ok.names).mp member
  rw [ok.fields_eq line] at inside
  obtain ⟨flat,listed,rfl⟩ := List.mem_map.mp inside
  obtain ⟨other,above,declared,_⟩ := mem_declaredFields.mp listed
  exact (ok.mem_externals name).mpr ⟨other,line.subset above,flat.decl,declared,external⟩

/-- The enum of a category has the leaves below it. -/
theorem families_of (resolved : schema.resolveWith externals = .ok model)
    (member : cls ∈ model.categories) :
    ∃ node ∈ schema.nodes, node.name = cls.name ∧
      ∃ leaves, schema.LeavesBelow node leaves ∧ leaves ≠ [] ∧
        HasBlock (SourceFile.of model).lines ("pub enum " ++ ("Any" ++ cls.name))
          (leaves.map fun leaf => s!"{leaf.name}({leaf.name}),") := by
  obtain ⟨ok,same⟩ := Schema.resolveWith_eq_ok.mp resolved
  obtain ⟨inside,category⟩ := List.mem_filter.mp member
  obtain ⟨node,chain,line,rfl⟩ := (Schema.mem_resolvedModel ok.names).mp (same ▸ inside)
  have extended : ¬ schema.Leaf node := fun leaf => by
    simp [(Schema.record_isLeaf line.member).mpr leaf] at category
  obtain ⟨leaves,below,some,listed⟩ := ok.leavesBelow line extended
  have variants : (FamilyItem.of model (schema.record node)).leaves.map
      (fun leaf => s!"{leaf}({leaf}),") = leaves.map fun leaf => s!"{leaf.name}({leaf.name})," := by
    rw [same]
    exact (congrArg _ listed).trans List.map_map
  have block := (FamilyItem.hasEnum _).within
    (SourceFile.family_part (filled_of_mem inside) (List.mem_map_of_mem member))
  rw [variants] at block
  exact ⟨node,line.member,rfl,leaves,below,some,block⟩

end

theorem Sound.references_of {model : Model} (sound : Sound model) {cls : Model.Class}
    (member : cls ∈ model.classes) {field : Model.Field} (inside : field ∈ cls.fields)
    {name : String} (reference : field.kind.target? = some name) :
    ∃ target ∈ model.classes, target.name = name ∧
      Provides (SourceFile.of model).lines (.node (typeOf target)) ∧
      ∃ visibility : String, s!"{visibility}{fieldIdent field.name}: {(Storage.of field).wrap
        (edgeText field (typeName target))}," ∈
          (ClassItem.of model cls).fields.flatMap (·.lines) := by
  obtain ⟨target,known,rfl⟩ := sound.target member inside reference
  have type := edgeText_of model reference
  rw [sound.target_of known,render_typeOf] at type
  refine ⟨target,known,rfl,sound.target_of known ▸ sound.provides_node known,
    if Storage.of field = .cell then "" else "pub ",?_⟩
  rw [← type]
  refine List.mem_flatMap.mpr ⟨_,List.mem_map_of_mem inside,?_⟩
  exact List.mem_append_right _ (List.mem_singleton_self _)

theorem closed_of_resolved {schema : Schema} {externals : NameSet} {model : Model}
    (resolved : schema.resolveWith externals = .ok model) (filled : model.classes ≠ []) :
    Closed schema model (SourceFile.of model).lines := by
  have sound := Sound.of_resolved resolved
  have filled' : (SourceFile.of model).classes ≠ [] := by simpa [SourceFile.of] using filled
  have provides {cls : Model.Class} (member : cls ∈ model.classes) {field : Model.Field}
      (inside : field ∈ cls.fields) {symbol : Symbol} (asks : Asks model field symbol) :
      Provides (SourceFile.of model).lines symbol :=
    sound.provides member inside (fun _ => external_known resolved member inside) asks
  constructor
  case names => exact sound.consistent.names
  case declarations =>
    exact ⟨_,_,declarations_of model filled',fun line inside => SourceFile.isImport _ inside,
      Needs.heads_sublist _⟩
  case support =>
    obtain ⟨⟨assigned,first⟩,view,second⟩ := (SourceFile.of model).needs.hasSupport
    have inside := SourceFile.prelude_part filled'
    exact ⟨⟨assigned,first.within inside⟩,view,second.within inside⟩
  case leaves =>
    have block := (hasNodeRef (SourceFile.of model).leaves).within (SourceFile.nodeRef_part filled')
    rwa [SourceFile.of,List.map_map] at block
  case families => exact fun cls member => families_of resolved member
  case references =>
    intro cls member
    exact ⟨_,(ClassItem.of model cls).hasStruct.within (class_part_of member),
      fun field inside name reference => sound.references_of member inside reference⟩
  case externals => exact fun cls member field inside name external => provides member inside external
  case symbols =>
    intro cls member
    refine ⟨class_part_of member,fun code listed => ⟨ClassItem.occurs listed,?_⟩⟩
    obtain ⟨field,inside,asked⟩ := ClassItem.asks (sound.consistent.classes cls member) listed
    exact asked.mono fun symbol asks => provides member inside asks

end NodeModel.Source
