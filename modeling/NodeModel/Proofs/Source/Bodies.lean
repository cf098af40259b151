import NodeModel.Proofs.Source.Closure

/-! The struct of a class, its constructor and its clone, field by field: the three list the same
fields, and the constructor takes a parameter for each field that it does not leave empty. -/
namespace NodeModel.Source

structure Declared where
  doc : List String
  visibility : String
  ident : String
  type : String

def Declared.lines (member : Declared) : List String :=
  member.doc ++ [s!"{member.visibility}{member.ident}: {member.type},"]

/-- A parameter and its type, or a member and its value. -/
structure Labelled where
  ident : String
  label : String

def Labelled.text (labelled : Labelled) : String := s!"{labelled.ident}: {labelled.label}"

inductive Start where
  /-- The variable of its name, as it is or as the contents of an option. -/
  | variable
  | wrapped
  | emptyCell
deriving DecidableEq

/-- The type of a member that starts with a variable of a type, or that has a cell for it. -/
def Start.stored (type : String) : Start → String
  | .variable => type
  | .wrapped => s!"Option<{type}>"
  | .emptyCell => s!"OnceCell<{type}>"

structure Initial where
  ident : String
  start : Start

def Initial.line : Initial → String
  | ⟨ident,.variable⟩ => s!"{ident},"
  | ⟨ident,.wrapped⟩ => Labelled.text ⟨ident,s!"Some({ident})"⟩ ++ ","
  | ⟨ident,.emptyCell⟩ => Labelled.text ⟨ident,"OnceCell::new()"⟩ ++ ","

/-- The body of a struct, the parameters and the literal of its constructor, and the literal of its
clone. -/
structure Bodies where
  members : List Declared
  params : List Labelled
  initials : List Initial
  copies : List Labelled

structure Bodies.WrittenIn (bodies : Bodies) (lines : List String) (cls : String) : Prop where
  struct : HasBlock lines s!"pub struct {cls}" (bodies.members.flatMap (·.lines))
  methods : ∃ methods, HasBlock lines s!"impl {cls}" methods ∧
    HasBlock methods ("pub fn new(" ++ ", ".intercalate (bodies.params.map (·.text)) ++ ") -> Self")
      (braced "Self" (bodies.initials.map (·.line))) ∧
    HasBlock methods "pub fn structural_clone(&self) -> Self"
      (braced "Self" (bodies.copies.map fun copy => copy.text ++ ","))

structure Suits (field : Model.Field) (member : Declared) (initial : Initial) : Prop where
  doc : ∀ line ∈ member.doc, ∃ text, line = "///" ++ text
  visibility : member.visibility = if field.policy.bound then "pub " else ""
  emptyCell : initial.start = .emptyCell ↔ field.policy.bound = false
  cell : initial.start = .emptyCell ↔ ∃ type : String, member.type = s!"OnceCell<{type}>"
  wrapped : initial.start = .wrapped ↔
    field.policy.optional = false ∧ ∃ type : String, member.type = s!"Option<{type}>"

structure Bodies.Agree (bodies : Bodies) (fields : List Model.Field) : Prop where
  members : bodies.members.map (·.ident) = fields.map (fieldIdent ·.name)
  initials : bodies.initials.map (·.ident) = bodies.members.map (·.ident)
  copies : bodies.copies.map (·.ident) = bodies.members.map (·.ident)
  suits : ∀ (i : Nat) field member initial, fields[i]? = some field →
    bodies.members[i]? = some member → bodies.initials[i]? = some initial →
    Suits field member initial
  /-- The parameters are the variables of the literal, in its order. -/
  params : bodies.params.map (·.ident) =
    (bodies.initials.filter (·.start ≠ .emptyCell)).map (·.ident)
  /-- They have the types of their members, up to what is wrapped. -/
  types : List.Forall₂ (fun param entry => entry.2.start.stored param.label = entry.1.type)
    bodies.params ((bodies.members.zip bodies.initials).filter (·.2.start ≠ .emptyCell))

variable {model : Model} {cls : Model.Class} {field : Model.Field}

def declaredOf (model : Model) (field : Model.Field) : Declared where
  doc := docLines field.doc
  visibility := if Storage.of field = .cell then "" else "pub "
  ident := fieldIdent field.name
  type := (Storage.of field).wrap (ValueType.of model field).render

def startOf (field : Model.Field) : Start :=
  match Storage.of field with
  | .cell => .emptyCell
  | .option => if field.policy.optional then .variable else .wrapped
  | .plain => .variable

def initialOf (field : Model.Field) : Initial := ⟨fieldIdent field.name,startOf field⟩

def parameterOf (model : Model) (field : Model.Field) : Labelled where
  ident := fieldIdent field.name
  label := if field.policy.optional then s!"Option<{(ValueType.of model field).render}>"
    else (ValueType.of model field).render

def copyOf (field : Model.Field) : Labelled :=
  ⟨fieldIdent field.name,(cloneExpr field field.step).render⟩

def bodiesOf (model : Model) (cls : Model.Class) : Bodies where
  members := cls.fields.map (declaredOf model)
  params := (cls.fields.filter (·.policy.bound)).map (parameterOf model)
  initials := cls.fields.map initialOf
  copies := cls.fields.map copyOf

theorem initialLine_of (field : Model.Field) :
    initialLine (field.name,initialExpr field) = (initialOf field).line := by
  unfold initialExpr initialOf startOf
  cases Storage.of field with
  | cell => rfl
  | plain => rfl
  | option =>
    cases field.policy.optional with
    | true => rfl
    | false => rfl

theorem paramText_of (model : Model) (field : Model.Field) :
    (paramOf model field).text = (parameterOf model field).text := by
  unfold paramOf parameterOf Param.text
  cases field.policy.optional with
  | true => rfl
  | false => rfl

theorem bodiesOf_written (lists : cls.Consistent) (member : cls ∈ model.classes) :
    (bodiesOf model cls).WrittenIn (SourceFile.of model).lines cls.name := by
  have inside := class_part_of member
  have members : (ClassItem.of model cls).fields.flatMap (·.lines) =
      (bodiesOf model cls).members.flatMap (·.lines) := by
    simp only [ClassItem.of,bodiesOf,List.flatMap_map]
    rfl
  have params : (ClassItem.of model cls).params.map (·.text) =
      (bodiesOf model cls).params.map (·.text) := by
    rw [ClassItem.params_of lists]
    simp only [bodiesOf,List.map_map]
    exact List.map_congr_left fun field _ => paramText_of model field
  have initials : (ClassItem.of model cls).initials.map initialLine =
      (bodiesOf model cls).initials.map (·.line) := by
    simp only [ClassItem.of,bodiesOf,List.map_map]
    exact List.map_congr_left fun field _ => initialLine_of field
  have copies : (ClassItem.of model cls).clones.map (·.line) =
      (bodiesOf model cls).copies.map fun copy => copy.text ++ "," := by
    rw [ClassItem.clones_of lists]
    simp only [bodiesOf,List.map_map]
    rfl
  constructor
  case struct =>
    rw [← members]
    exact (ClassItem.of model cls).hasStruct.within inside
  case methods =>
    refine ⟨_,(ClassItem.of model cls).hasMethods.within inside,?_,?_⟩
    · rw [← params,← initials]
      exact ClassItem.constructorLines_part
    · rw [← copies]
      exact List.infix_append_right.trans ClassItem.cloneLines_part

theorem startOf_emptyCell : startOf field = .emptyCell ↔ Storage.of field = .cell := by
  unfold startOf
  cases Storage.of field with
  | cell => simp
  | plain => simp
  | option => cases field.policy.optional <;> simp

theorem storage_eq_cell : Storage.of field = .cell ↔ field.policy.bound = false :=
  ⟨bound_of_cell,storage_of_deferred⟩

/-- The first letter tells values from what is wrapped, the second options from cells. -/
theorem render_start (type : ValueType) : type.render.toList.head? ≠ some 'O' := by
  cases type with
  | edge weak target => cases weak <;> simp [ValueType.render,pointer,toString]
  | _ => simp [ValueType.render,toString]

theorem option_ne_cell (type other : String) : s!"Option<{type}>" ≠ s!"OnceCell<{other}>" := by
  intro same
  have second := congrArg (fun text => text.toList[1]?) same
  simp [toString] at second

theorem wrap_option_iff {storage : Storage} {type : ValueType} :
    (∃ text : String, storage.wrap type.render = s!"Option<{text}>") ↔ storage = .option := by
  cases storage with
  | plain =>
    refine iff_of_false ?_ (by simp)
    rintro ⟨text,same⟩
    exact render_start type (by simp [show type.render = _ from same,toString])
  | option => simp [Storage.wrap]
  | cell =>
    refine iff_of_false ?_ (by simp)
    rintro ⟨text,same⟩
    exact option_ne_cell _ _ same.symm

theorem wrap_cell_iff {storage : Storage} {type : ValueType} :
    (∃ text : String, storage.wrap type.render = s!"OnceCell<{text}>") ↔ storage = .cell := by
  cases storage with
  | plain =>
    refine iff_of_false ?_ (by simp)
    rintro ⟨text,same⟩
    exact render_start type (by simp [show type.render = _ from same,toString])
  | option =>
    refine iff_of_false ?_ (by simp)
    rintro ⟨text,same⟩
    exact option_ne_cell _ _ same
  | cell => simp [Storage.wrap]

theorem docLines_start (doc : Option String) :
    ∀ line ∈ docLines doc, ∃ text, line = "///" ++ text := by
  intro line member
  cases doc with
  | none => cases member
  | some doc =>
    obtain ⟨text,_,rfl⟩ := List.mem_map.mp member
    dsimp only
    split
    · exact ⟨String.ofList (' ' :: text).dropLast,by cases text <;> simp [String.ext_iff]⟩
    · exact ⟨String.ofList (' ' :: text),by simp [String.ext_iff]⟩

theorem suits_of (model : Model) (field : Model.Field) :
    Suits field (declaredOf model field) (initialOf field) where
  doc := docLines_start field.doc
  visibility := by
    simp only [declaredOf,storage_eq_cell]
    cases field.policy.bound <;> rfl
  emptyCell := startOf_emptyCell.trans storage_eq_cell
  cell := startOf_emptyCell.trans wrap_cell_iff.symm
  wrapped := by
    refine Iff.trans ?_ (and_congr_right' wrap_option_iff.symm)
    unfold initialOf startOf
    cases Storage.of field with
    | cell => simp
    | plain => simp
    | option => simp

/-- What is passed for a bound field has the type of the member, up to the wrapping. -/
theorem stored_parameter (model : Model) (bound : field.policy.bound = true) :
    (startOf field).stored (parameterOf model field).label = (declaredOf model field).type := by
  have storage : Storage.of field ≠ .cell := storage_ne_cell bound
  have required : Storage.of field = .plain → field.policy.optional = false := by
    simp only [Storage.of,bound]
    cases field.policy.optional <;> simp
  unfold startOf parameterOf declaredOf
  cases held : Storage.of field with
  | cell => exact absurd held storage
  | plain => rw [required held]; rfl
  | option => cases field.policy.optional <;> rfl

theorem taken_eq_bound (field : Model.Field) :
    decide ((initialOf field).start ≠ .emptyCell) = field.policy.bound := by
  simp [initialOf,startOf_emptyCell,storage_eq_cell]

theorem bodiesOf_agree (model : Model) (cls : Model.Class) :
    (bodiesOf model cls).Agree cls.fields := by
  constructor
  case members => simp [bodiesOf,declaredOf]
  case initials => simp [bodiesOf,initialOf,declaredOf]
  case copies => simp [bodiesOf,copyOf,declaredOf]
  case suits =>
    intro i field member initial found
    simp only [bodiesOf,List.getElem?_map,found,Option.map_some,Option.some.injEq]
    rintro rfl rfl
    exact suits_of model field
  case params =>
    simp only [bodiesOf,List.filter_map,List.map_map]
    exact congrArg (List.map _) (List.filter_congr fun field _ => (taken_eq_bound field).symm)
  case types =>
    have taken : (((bodiesOf model cls).members.zip (bodiesOf model cls).initials).filter
        (·.2.start ≠ .emptyCell)) = (cls.fields.filter (·.policy.bound)).map fun field =>
          (declaredOf model field,initialOf field) := by
      simp only [bodiesOf]
      rw [List.zip_map',List.filter_map]
      exact congrArg _ (List.filter_congr fun field _ => taken_eq_bound field)
    rw [taken]
    refine List.forall₂_map_left_iff.mpr (List.forall₂_map_right_iff.mpr ?_)
    refine List.forall₂_same.mpr fun field inside => ?_
    exact stored_parameter model (List.mem_filter.mp inside).2

/-- In the file emitted for a resolved model, the struct of a class, the literal of its constructor
and that of its clone list the fields of the class in one order; the constructor has a parameter for
each field but the deferred ones, which start empty. -/
theorem source_bodies_agree {schema : Schema} {externals : NameSet} {model : Model}
    (resolved : schema.resolveWith externals = .ok model) :
    ∃ lines, NodeModel.Target.source.files model =
        [⟨"nodes.rs",String.join (lines.map (· ++ "\n"))⟩] ∧
      ∀ cls ∈ model.classes, ∃ bodies : Bodies,
        bodies.WrittenIn lines cls.name ∧ bodies.Agree cls.fields := by
  have consistent := Schema.consistent_of_resolved resolved
  refine ⟨_,rfl,fun cls member => ⟨bodiesOf model cls,?_,bodiesOf_agree model cls⟩⟩
  exact bodiesOf_written (consistent.classes cls member) member

def mixed : Schema where
  nodes := [{
    name := "Node"
    fields := [
      { name := "fooBar", kind := .primitive .text },
      { name := "note", kind := .primitive .text, policy := { optional := true } },
      { name := "type", kind := .single "Node", policy := { bound := false } }] },
    { name := "Leaf"
      superclass := some "Node"
      fields := [
        { name := "rank", kind := .primitive .integer, policy := { copyMode := some .reset } },
        { name := "foo_bar", kind := .list "Node" }] }]

theorem source_bodies_agree_mixed :
    mixed.resolveWith {} = .ok (mixed.resolvedModel {}) ∧
    ∃ lines, NodeModel.Target.source.files (mixed.resolvedModel {}) =
        [⟨"nodes.rs",String.join (lines.map (· ++ "\n"))⟩] ∧
      ∃ cls ∈ (mixed.resolvedModel {}).classes,
        cls.fields.map startOf = [.variable,.variable,.emptyCell,.wrapped,.variable] ∧
        ∃ bodies : Bodies, bodies.WrittenIn lines cls.name ∧ bodies.Agree cls.fields ∧
          bodies.members.map (·.ident) = ["foo_bar","note","r#type","rank","foo_bar"] := by
  have resolved : mixed.resolveWith {} = .ok (mixed.resolvedModel {}) := rfl
  have found : ∃ cls ∈ (mixed.resolvedModel {}).classes,
      cls.fields.map startOf = [.variable,.variable,.emptyCell,.wrapped,.variable] ∧
      cls.fields.map (fieldIdent ·.name) = ["foo_bar","note","r#type","rank","foo_bar"] := by
    decide +kernel
  obtain ⟨cls,member,starts,idents⟩ := found
  obtain ⟨lines,file,classes⟩ := source_bodies_agree resolved
  obtain ⟨bodies,written,agree⟩ := classes cls member
  exact ⟨resolved,lines,file,cls,member,starts,bodies,written,agree,agree.members.trans idents⟩

end NodeModel.Source
