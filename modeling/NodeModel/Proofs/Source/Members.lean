import NodeModel.Proofs.Declaration.RoundTrip
import NodeModel.Proofs.Resolution.Indicators
import NodeModel.Proofs.Source.Closure
import NodeModel.Proofs.Source.Spelling

/-! The members of an emitted struct and the methods of its block, read off the lines. -/
namespace NodeModel.Source

open Text

/-- The name of the field that a line of a struct declares. Documentation declares none. -/
def memberName? (line : String) : Option String :=
  let head := line.toList.takeWhile (· != ':')
  if (stripStart "//".toList head).isSome then none
  else some (String.ofList ((stripStart "pub ".toList head).getD head))

def methodName? (line : String) : Option String :=
  (stripStart "pub fn ".toList line.toList).map fun rest =>
    String.ofList (rest.takeWhile (· != '('))

def memberNamesOf (lines : List String) : List String := lines.filterMap memberName?

def methodNamesOf (lines : List String) : List String := lines.filterMap methodName?

theorem memberNamesOf_docLines (doc : Option String) : memberNamesOf (docLines doc) = [] := by
  refine List.filterMap_eq_nil_iff.mpr fun line inside => ?_
  cases doc with
  | none => simp [docLines] at inside
  | some doc =>
    obtain ⟨cs,_,rfl⟩ := List.mem_map.mp inside
    dsimp only
    split <;> simp [memberName?,stripStart]

def Plain (ident : String) : Prop := ':' ∉ ident.toList ∧ ' ' ∉ ident.toList ∧ '/' ∉ ident.toList

theorem memberName?_field {visibility ident : String}
    (shown : visibility = "" ∨ visibility = "pub ") (plain : Plain ident) (type : String) :
    memberName? (visibility ++ ident ++ ": " ++ type) = some ident := by
  obtain ⟨colon,blank,slash⟩ := plain
  have head : (visibility ++ ident ++ ": " ++ type).toList.takeWhile (· != ':') =
      visibility.toList ++ ident.toList := by
    have text : (visibility ++ ident ++ ": " ++ type).toList =
        (visibility.toList ++ ident.toList) ++ ':' :: ' ' :: type.toList := by simp
    rw [text]
    refine takeWhile_until ?_ _
    obtain rfl | rfl := shown <;> simp [colon]
  have code : stripStart "//".toList (visibility.toList ++ ident.toList) = none := by
    refine stripStart_of_free '/' (by simp) ?_
    obtain rfl | rfl := shown <;> simp [slash]
  have rest : (stripStart "pub ".toList (visibility.toList ++ ident.toList)).getD
      (visibility.toList ++ ident.toList) = ident.toList := by
    obtain rfl | rfl := shown
    · have hidden : stripStart "pub ".toList ident.toList = none :=
        stripStart_of_free ' ' (by simp) blank
      rw [String.toList_empty,List.nil_append,hidden]
      rfl
    · rw [stripStart_append]
      rfl
  simp only [memberName?,head,code,rest]
  simp

theorem memberNamesOf_structField {field : StructField} (plain : Plain (fieldIdent field.name)) :
    memberNamesOf field.lines = [fieldIdent field.name] := by
  have lines : field.lines = docLines field.doc ++
      [(if field.storage = .cell then "" else "pub ") ++ fieldIdent field.name ++ ": " ++
        (field.storage.wrap field.type.render ++ ",")] := by
    simp [StructField.lines,ToString.toString,String.append_assoc]
  have shown : (if field.storage = .cell then "" else "pub ") = "" ∨
      (if field.storage = .cell then "" else "pub ") = "pub " := by
    split
    · exact .inl rfl
    · exact .inr rfl
  have line := memberName?_field shown plain (field.storage.wrap field.type.render ++ ",")
  have docs := memberNamesOf_docLines field.doc
  rw [memberNamesOf] at docs ⊢
  rw [lines,List.filterMap_append,docs,List.nil_append,List.filterMap_cons,line]
  rfl

theorem memberNamesOf_struct {fields : List StructField}
    (plain : ∀ field ∈ fields, Plain (fieldIdent field.name)) :
    memberNamesOf (fields.flatMap (·.lines)) = fields.map fun field => fieldIdent field.name := by
  induction fields with
  | nil => rfl
  | cons field fields ih =>
    obtain ⟨here,later⟩ := List.forall_mem_cons.mp plain
    have own := memberNamesOf_structField here
    have others := ih later
    rw [memberNamesOf] at own others ⊢
    rw [List.flatMap_cons,List.filterMap_append,own,others]
    rfl

def OpensMethod (line name : String) : Prop :=
  ∃ rest, line.toList = "pub fn ".toList ++ (name.toList ++ '(' :: rest)

theorem OpensMethod.append {line name : String} (opens : OpensMethod line name) (rest : String) :
    OpensMethod (line ++ rest) name := by
  obtain ⟨behind,text⟩ := opens
  exact ⟨behind ++ rest.toList,by simp [text]⟩

theorem OpensMethod.methodName? {line name : String} (opens : OpensMethod line name)
    (free : '(' ∉ name.toList) : methodName? line = some name := by
  obtain ⟨rest,text⟩ := opens
  rw [Source.methodName?,text,stripStart_append,Option.map_some,takeWhile_until free,
    String.ofList_toList]

theorem methodNamesOf_append (lines rest : List String) :
    methodNamesOf (lines ++ rest) = methodNamesOf lines ++ methodNamesOf rest :=
  List.filterMap_append

theorem methodNamesOf_docLines (doc : Option String) : methodNamesOf (docLines doc) = [] := by
  refine List.filterMap_eq_nil_iff.mpr fun line inside => ?_
  cases doc with
  | none => simp [docLines] at inside
  | some doc =>
    obtain ⟨cs,_,rfl⟩ := List.mem_map.mp inside
    dsimp only
    split <;> simp [methodName?,stripStart]

theorem methodNamesOf_indented (lines : List String) : methodNamesOf (indented lines) = [] := by
  refine List.filterMap_eq_nil_iff.mpr fun line inside => ?_
  obtain ⟨text,_,rfl⟩ := List.mem_map.mp inside
  split <;> simp [methodName?,stripStart]

/-- Of a method the head alone shows. -/
theorem methodNamesOf_braced {head name : String} (opens : OpensMethod head name)
    (free : '(' ∉ name.toList) (body : List String) :
    methodNamesOf (braced head body) = [name] := by
  have first := (opens.append " \x7b").methodName? free
  have last : methodNamesOf ["\x7d"] = [] := by decide
  rw [braced,methodNamesOf_append,methodNamesOf_append,methodNamesOf_indented,last]
  simp [methodNamesOf,opening,first]

/-- A name and a list of arguments open a method, whatever follows. -/
theorem opensMethod (name : String) {args : String} (paren : args.toList.head? = some '(') :
    OpensMethod ("pub fn " ++ name ++ args) name := by
  obtain ⟨rest,text⟩ := List.head?_eq_some_iff.mp paren
  exact ⟨rest,by simp [text]⟩

theorem Accessor.methodNamesOf_lines {accessor : Accessor}
    (free : '(' ∉ accessor.getterName.toList ∧ '(' ∉ accessor.setterName.toList) :
    methodNamesOf accessor.lines = [accessor.getterName,accessor.setterName] := by
  have opensGetter : OpensMethod s!"pub fn {accessor.getterName}(&self) -> {accessor.getter.type}"
      accessor.getterName := (opensMethod _ (by decide)).append _
  have opensSetter : OpensMethod (s!"pub fn {accessor.setterName}(&self, value: {
      accessor.setter.type}) " ++ "-> Result<(), AlreadyAssigned>") accessor.setterName :=
    (((opensMethod _ (by decide)).append _).append _).append _
  have getter : methodNamesOf accessor.getterLines = [accessor.getterName] := by
    rw [getterLines,methodNamesOf_append,methodNamesOf_docLines,List.nil_append,
      methodNamesOf_braced opensGetter free.1]
  have setter : methodNamesOf accessor.setterLines = [accessor.setterName] := by
    rw [setterLines,methodNamesOf_braced opensSetter free.2]
  have blank : methodNamesOf [""] = [] := by decide
  simp only [lines,methodNamesOf_append,getter,setter,blank]
  rfl

theorem methodName?_const (cs : List Char) (value rest : String) :
    methodName? (String.ofList ('p' :: 'u' :: 'b' :: ' ' :: 'c' :: cs) ++ value ++ rest) =
      none := by
  simp [methodName?,stripStart]

theorem methodName?_doc (cs : List Char) : methodName? (String.ofList ('/' :: cs)) = none := by
  simp [methodName?,stripStart]

theorem methodNamesOf_other {line : String} (other : methodName? line = none)
    (lines : List String) : methodNamesOf (line :: lines) = methodNamesOf lines :=
  List.filterMap_cons_none other

theorem methodName?_blank : methodName? "" = none := by decide

theorem MangleItem.methodNamesOf_lines (item : MangleItem) :
    methodNamesOf item.lines = ["mangle_name","mangle_applies"] := by
  have name : OpensMethod "pub fn mangle_name(&self) -> Option<&str>" "mangle_name" :=
    ⟨"&self) -> Option<&str>".toList,by simp⟩
  have flag : OpensMethod "pub fn mangle_applies(&self) -> bool" "mangle_applies" :=
    ⟨"&self) -> bool".toList,by simp⟩
  have consts : methodNamesOf [
      s!"pub const MANGLE_NAME_FIELD: &'static str = \"{item.nameField}\";",
      s!"pub const MANGLE_FLAG_FIELD: &'static str = \"{item.flagField}\";","",
      "/// Identity name recorded for mangling, if assigned."] = [] := by
    refine (methodNamesOf_other (methodName?_const _ _ _) _).trans ?_
    refine (methodNamesOf_other (methodName?_const _ _ _) _).trans ?_
    refine (methodNamesOf_other methodName?_blank _).trans ?_
    exact methodNamesOf_other (methodName?_doc _) []
  have doc : methodNamesOf
      ["","/// Whether this instance's name is replaced by the mangled one."] = [] := by
    refine (methodNamesOf_other methodName?_blank _).trans ?_
    exact methodNamesOf_other (methodName?_doc _) []
  rw [lines,methodNamesOf_append,methodNamesOf_append,methodNamesOf_append,consts,doc,
    methodNamesOf_braced name (by decide),methodNamesOf_braced flag (by decide)]
  rfl

def lastMethods (bound : Bool) : List String :=
  ["children","structural_clone"] ++ if bound then ["mangle_name","mangle_applies"] else []

def ClassItem.methods (item : ClassItem) : List String :=
  ["new"] ++ item.accessors.flatMap (fun accessor => [accessor.getterName,accessor.setterName]) ++
    lastMethods item.mangle.isSome

theorem ClassItem.methodNamesOf_methodLines {item : ClassItem}
    (free : ∀ accessor ∈ item.accessors,
      '(' ∉ accessor.getterName.toList ∧ '(' ∉ accessor.setterName.toList) :
    methodNamesOf item.methodLines = item.methods := by
  have new : OpensMethod "pub fn new(" "new" := ⟨[],by simp⟩
  have children : OpensMethod "pub fn children(&self, " "children" := ⟨"&self, ".toList,by simp⟩
  have clone : OpensMethod "pub fn structural_clone(&self) -> Self" "structural_clone" :=
    ⟨"&self) -> Self".toList,by simp⟩
  have constructors : methodNamesOf item.constructorLines = ["new"] :=
    methodNamesOf_braced ((new.append _).append _) (by decide) _
  have visitors : methodNamesOf item.childrenLines = ["children"] :=
    methodNamesOf_braced ((children.append _).append _) (by decide) _
  have clones : methodNamesOf item.cloneLines = ["structural_clone"] := by
    rw [cloneLines,methodNamesOf_append,methodNamesOf_braced clone (by decide),
      methodNamesOf_other (methodName?_doc _),methodNamesOf_other (methodName?_doc _)]
    rfl
  have consts : methodNamesOf [s!"pub const CLASS: &'static str = \"{item.name}\";",
      s!"pub const IS_GENERIC: bool = {item.generic};",
      s!"pub const IS_UNIQUE: bool = {item.unique};",""] = [] := by
    refine (methodNamesOf_other (methodName?_const _ _ _) _).trans ?_
    refine (methodNamesOf_other (methodName?_const _ _ _) _).trans ?_
    refine (methodNamesOf_other (methodName?_const _ _ _) _).trans ?_
    exact methodNamesOf_other methodName?_blank []
  have accessors : methodNamesOf (item.accessors.flatMap (·.lines)) =
      item.accessors.flatMap fun accessor => [accessor.getterName,accessor.setterName] :=
    (List.filterMap_flatMap ..).trans (List.flatMap_congr fun accessor inside =>
      Accessor.methodNamesOf_lines (free accessor inside))
  have mangle : methodNamesOf ((item.mangle.map ("" :: ·.lines)).getD []) =
      if item.mangle.isSome then ["mangle_name","mangle_applies"] else [] := by
    cases item.mangle with
    | none => rfl
    | some mangle => exact mangle.methodNamesOf_lines
  simp only [methodLines,methods,lastMethods,methodNamesOf_append,constructors,visitors,clones,consts,accessors,
    mangle,methodNamesOf_other methodName?_blank]
  simp [methodNamesOf]

section

variable {text : String} {schema : Schema} {model : Model} {cls : Model.Class} {field : Model.Field}

theorem isWord_of_read (read : Schema.ofText text = .ok schema)
    (resolved : schema.resolve = .ok model) (member : cls ∈ model.classes)
    (inside : field ∈ cls.fields) : IsWord field.name := by
  obtain ⟨ok,rfl⟩ := Schema.resolveWith_eq_ok.mp resolved
  obtain ⟨node,chain,line,rfl⟩ := (Schema.mem_resolvedModel ok.names).mp member
  rw [ok.fields_eq line] at inside
  obtain ⟨flat,listed,rfl⟩ := List.mem_map.mp inside
  obtain ⟨other,above,declared,_⟩ := mem_declaredFields.mp listed
  have expressible := (Schema.expressible_of_text read).nodes other (line.subset above)
  exact List.all_eq_true.mpr (expressible.fields flat.decl declared).name.name.wordChars

theorem mangle_isSome (resolved : schema.resolve = .ok model) (member : cls ∈ model.classes) :
    (ClassItem.of model cls).mangle.isSome = cls.indicators.mangle.isSome := by
  obtain ⟨ok,rfl⟩ := Schema.resolveWith_eq_ok.mp resolved
  obtain ⟨node,chain,line,rfl⟩ := (Schema.mem_resolvedModel ok.names).mp member
  cases bound : (schema.record node).indicators.mangle with
  | none => simp [ClassItem.of,bound]
  | some mangle =>
    have fields := (ok.indicates line).bound mangle bound
    obtain ⟨name,named⟩ := fields.name.field?
    obtain ⟨flag,flagged⟩ := fields.flag.field?
    simp [ClassItem.of,bound,named,flagged]

end

/-- The two blocks of a class in the emitted file, with the names of all members and methods. -/
structure HasNames (lines : List String) (cls : Model.Class) (members methods : List String) :
    Prop where
  struct : HasBlock lines s!"pub struct {cls.name}" members
  block : HasBlock lines s!"impl {cls.name}" methods
  members : memberNamesOf members = cls.fields.map (fieldIdent ·.name)
  methods : methodNamesOf methods =
    ["new"] ++ cls.deferredFields.flatMap (fun field => accessorNames (spelling field.name)) ++
      lastMethods cls.indicators.mangle.isSome

section

variable {text : String} {schema : Schema} {model : Model} {cls : Model.Class}

theorem memberNames_of (model : Model) (words : ∀ field ∈ cls.fields, IsWord field.name) :
    memberNamesOf ((ClassItem.of model cls).fields.flatMap (·.lines)) =
      cls.fields.map (fieldIdent ·.name) := by
  rw [memberNamesOf_struct]
  · simp [ClassItem.of]
  · intro member inside
    obtain ⟨field,listed,rfl⟩ := List.mem_map.mp inside
    have word := isWord_spelling (words field listed)
    rw [fieldIdent_eq]
    exact ⟨escaped_free word (by decide) (by decide),escaped_free word (by decide) (by decide),
      escaped_free word (by decide) (by decide)⟩

theorem accessor_names (model : Model) {field : Model.Field} (word : IsWord field.name) :
    (Accessor.of model field).getterName = getterName (spelling field.name) ∧
      (Accessor.of model field).setterName = setterName (spelling field.name) := by
  simp only [Accessor.of,accessorName_eq word,bare_fieldIdent word,setterName,and_self]

theorem methodNames_of (model : Model) (words : ∀ field ∈ cls.deferredFields, IsWord field.name) :
    methodNamesOf (ClassItem.of model cls).methodLines =
      ["new"] ++ cls.deferredFields.flatMap (fun field => accessorNames (spelling field.name)) ++
        lastMethods (ClassItem.of model cls).mangle.isSome := by
  rw [ClassItem.methodNamesOf_methodLines]
  · simp only [ClassItem.methods,ClassItem.of,List.flatMap_map]
    rw [List.flatMap_congr fun field inside => ?_]
    obtain ⟨getter,setter⟩ := accessor_names model (words field inside)
    rw [getter,setter]
    rfl
  · intro accessor inside
    obtain ⟨field,listed,rfl⟩ := List.mem_map.mp inside
    obtain ⟨getter,setter⟩ := accessor_names model (words field listed)
    have word := isWord_spelling (words field listed)
    rw [getter,setter]
    exact ⟨getterName_free word (by decide) (by decide),(isWord_setterName word).free (by decide)⟩

/-- The fixed names stand in the order in which they are listed. -/
theorem fixed_sublist (bound : Bool) : (["new"] ++ lastMethods bound).Sublist methodNames := by
  cases bound <;> decide

theorem names_of (read : Schema.ofText text = .ok schema) (resolved : schema.resolve = .ok model)
    (member : cls ∈ model.classes) :
    ∃ members methods, HasNames (SourceFile.of model).lines cls members methods ∧
      ((memberNamesOf members).Nodup ↔
        cls.fields.Pairwise fun field other => spelling field.name ≠ spelling other.name) ∧
      ((methodNamesOf methods).Nodup ↔ cls.deferredFields.Pairwise fun field other =>
        ¬ Clash (spelling field.name) (spelling other.name)) := by
  have words : ∀ field ∈ cls.fields, IsWord field.name :=
    fun field inside => isWord_of_read read resolved member inside
  have words' : ∀ field ∈ cls.deferredFields, IsWord field.name :=
    fun field inside => words field (List.mem_of_mem_filter inside)
  have members := memberNames_of model words
  have methods := methodNames_of model words'
  rw [mangle_isSome resolved member] at methods
  refine ⟨_,_,⟨(ClassItem.of model cls).hasStruct.within (class_part_of member),
    (ClassItem.of model cls).hasMethods.within (class_part_of member),members,methods⟩,?_,?_⟩
  · have names : cls.fields.map (fieldIdent ·.name) = (cls.fields.map (·.name)).map fieldIdent := by
      simp
    rw [members,names,members_nodup_iff (List.forall_mem_map.mpr words),List.pairwise_map]
  · have spellings : cls.deferredFields.flatMap (fun field => accessorNames (spelling field.name)) =
        (cls.deferredFields.map (spelling ·.name)).flatMap accessorNames := by
      simp [List.flatMap_map]
    rw [methods,spellings,methods_nodup_iff _ (fixed_sublist _),List.pairwise_map]
    exact List.forall_mem_map.mpr fun field inside => isWord_spelling (words' field inside)

end

/-- In the file emitted for an accepted text, the members of a struct have different names exactly
if its fields are spelled differently, and its methods exactly if no two deferred fields clash. -/
theorem source_names_nodup_iff {text : String} {schema : Schema} {model : Model}
    (read : Schema.ofText text = .ok schema) (resolved : schema.resolve = .ok model) :
    ∃ lines, NodeModel.Target.source.files model =
        [⟨"nodes.rs",String.join (lines.map (· ++ "\n"))⟩] ∧
      ∀ cls ∈ model.classes, ∃ members methods, HasNames lines cls members methods ∧
        ((memberNamesOf members).Nodup ↔
          cls.fields.Pairwise fun field other => spelling field.name ≠ spelling other.name) ∧
        ((methodNamesOf methods).Nodup ↔ cls.deferredFields.Pairwise fun field other =>
          ¬ Clash (spelling field.name) (spelling other.name)) :=
  ⟨_,rfl,fun _ member => names_of read resolved member⟩

/-- Fields named like a keyword, a method and a word that is no identifier. -/
def awkwardText : String :=
  "node Node \x7b\n    type: string @deferred\n    children: bool @deferred\n    self: int\n\x7d\n"

def awkward : Schema where
  nodes := [{
    name := "Node"
    fields := [
      { name := "type", kind := .primitive .text, policy := { bound := false } },
      { name := "children", kind := .primitive .flag, policy := { bound := false } },
      { name := "self", kind := .primitive .integer }] }]

theorem source_names_nodup_iff_awkward :
    Schema.ofText awkwardText = .ok awkward ∧ awkward.resolve = .ok (awkward.resolvedModel {}) ∧
      ∃ lines, NodeModel.Target.source.files (awkward.resolvedModel {}) =
          [⟨"nodes.rs",String.join (lines.map (· ++ "\n"))⟩] ∧
        ∃ cls ∈ (awkward.resolvedModel {}).classes, ∃ members methods,
          HasNames lines cls members methods ∧ (memberNamesOf members).Nodup ∧
          (methodNamesOf methods).Nodup := by
  have read : Schema.ofText awkwardText = .ok awkward := by decide +kernel
  have resolved : awkward.resolve = .ok (awkward.resolvedModel {}) := rfl
  have apart : ∃ cls ∈ (awkward.resolvedModel {}).classes,
      (cls.fields.Pairwise fun field other => spelling field.name ≠ spelling other.name) ∧
      cls.deferredFields.Pairwise fun field other =>
        ¬ Clash (spelling field.name) (spelling other.name) := by decide +kernel
  obtain ⟨cls,member,fields,deferred⟩ := apart
  obtain ⟨lines,file,classes⟩ := source_names_nodup_iff read resolved
  obtain ⟨members,methods,names,membersIff,methodsIff⟩ := classes cls member
  exact ⟨read,resolved,lines,file,cls,member,members,methods,names,membersIff.mpr fields,
    methodsIff.mpr deferred⟩

def ambiguousText : String :=
  "node Node \x7b\n    fooBar: string @deferred\n    foo_bar: string @deferred\n\x7d\n"

def ambiguous : Schema where
  nodes := [{
    name := "Node"
    fields := [
      { name := "fooBar", kind := .primitive .text, policy := { bound := false } },
      { name := "foo_bar", kind := .primitive .text, policy := { bound := false } }] }]

/-- A text is accepted for which a struct has one member twice, and one method. -/
theorem source_names_ambiguous :
    Schema.ofText ambiguousText = .ok ambiguous ∧
      ambiguous.resolve = .ok (ambiguous.resolvedModel {}) ∧
      ∃ cls ∈ (ambiguous.resolvedModel {}).classes, ∃ members methods,
        HasNames (SourceFile.of (ambiguous.resolvedModel {})).lines cls members methods ∧
        ¬ (memberNamesOf members).Nodup ∧ ¬ (methodNamesOf methods).Nodup := by
  have read : Schema.ofText ambiguousText = .ok ambiguous := by decide +kernel
  have resolved : ambiguous.resolve = .ok (ambiguous.resolvedModel {}) := rfl
  have alike : ∃ cls ∈ (ambiguous.resolvedModel {}).classes,
      (¬ cls.fields.Pairwise fun field other => spelling field.name ≠ spelling other.name) ∧
      ¬ cls.deferredFields.Pairwise fun field other =>
        ¬ Clash (spelling field.name) (spelling other.name) := by decide +kernel
  obtain ⟨cls,member,fields,deferred⟩ := alike
  obtain ⟨members,methods,names,membersIff,methodsIff⟩ := names_of read resolved member
  exact ⟨read,resolved,cls,member,members,methods,names,mt membersIff.mp fields,
    mt methodsIff.mp deferred⟩

end NodeModel.Source
