import NodeModel.Proofs.Source.Code
import NodeModel.Proofs.Source.Reading

/-! The symbols in the code of a class, traced back to the fields that bring them in. -/
namespace NodeModel.Source

def Asks (model : Model) (field : Model.Field) : Symbol → Prop
  | .cell => field.policy.bound = false
  | .shared => field.kind.isReference = true ∨ field.kind.external?.isSome = true
  | .weak => isWeak field = true
  | .externalCopy => field.policy.copyMode = .external
  | .mapCell => field.policy.copyMode = .external ∧ field.policy.bound = false
  | .external name => field.kind = .primitive (.external name)
  | .node target => ∃ name, field.kind.target? = some name ∧ target = .of model name

variable {model : Model} {field : Model.Field} {name : String}

theorem bound_of_cell (cell : Storage.of field = .cell) : field.policy.bound = false := by
  cases bound : field.policy.bound with
  | false => rfl
  | true => exact absurd cell (storage_ne_cell bound)

theorem asks_cell (cell : Storage.of field = .cell) : Asks model field .cell := bound_of_cell cell

theorem asks_shared (reference : field.kind.target? = some name) : Asks model field .shared :=
  .inl (by simp [FieldKind.isReference,reference])

theorem asks_node (reference : field.kind.target? = some name) :
    Asks model field (.node (.of model name)) := ⟨name,reference,rfl⟩

theorem asks_pointer (reference : field.kind.target? = some name) :
    (pointerCode (isWeak field) (.of model name)).Within (Asks model field) := by
  have node : Asks model field (.node (.of model name)) := asks_node reference
  cases weak : isWeak field with
  | false => simpa [pointerCode,node] using asks_shared reference
  | true =>
    have pointed : Asks model field .weak := weak
    simpa [pointerCode,node] using pointed

theorem asks_type (model : Model) (field : Model.Field) :
    (ValueType.of model field).code.Within (Asks model field) := by
  unfold ValueType.of
  split
  case h_4 name kind =>
    have shared : Asks model field .shared := .inr (by simp [kind,FieldKind.external?])
    have named : Asks model field (.external name) := kind
    simpa [ValueType.code,shared] using named
  case h_5 name kind => exact asks_pointer (by rw [kind]; rfl)
  case h_6 name kind => simpa [ValueType.code] using asks_pointer (by rw [kind]; rfl)
  all_goals simp [ValueType.code]

theorem asks_stored (model : Model) (field : Model.Field) :
    ((Storage.of field).code (ValueType.of model field).code).Within (Asks model field) := by
  cases stored : Storage.of field with
  | plain => exact asks_type model field
  | option => simpa [Storage.code] using asks_type model field
  | cell => simpa [Storage.code,asks_type model field] using asks_cell stored

theorem asks_param (model : Model) (field : Model.Field) (optional : Bool) :
    (Param.code ⟨field.name,.of model field,optional⟩).Within (Asks model field) := by
  cases optional <;> simpa [Param.code] using asks_type model field

theorem asks_getterType (model : Model) (field : Model.Field) :
    (Getter.of model field).typeCode.Within (Asks model field) := by
  unfold Getter.of
  have borrowed : (Getter.typeCode (.borrowed (.of model field))).Within (Asks model field) := by
    simpa [Getter.typeCode] using asks_type model field
  cases kind : field.kind with
  | single name =>
    have reference : field.kind.target? = some name := by rw [kind]; rfl
    dsimp only
    split
    · simpa [Getter.typeCode] using ⟨asks_shared reference,asks_node reference⟩
    · exact borrowed
  | list name =>
    have reference : field.kind.target? = some name := by rw [kind]; rfl
    dsimp only
    split
    · simpa [Getter.typeCode] using asks_pointer reference
    · exact borrowed
  | primitive value =>
    cases value <;> cases field.policy.optional <;> first | exact borrowed | simp [Getter.typeCode]

theorem asks_setterType (model : Model) (field : Model.Field) :
    (Setter.of model field).typeCode.Within (Asks model field) := by
  unfold Setter.of
  split
  next name kind =>
    have reference : field.kind.target? = some name := by rw [kind]; rfl
    split
    · simpa [Setter.typeCode] using ⟨asks_shared reference,asks_node reference⟩
    · exact asks_type model field
  next => exact asks_type model field

theorem asks_initial (model : Model) (field : Model.Field) :
    (initialExpr field).code.Within (Asks model field) := by
  unfold initialExpr
  cases stored : Storage.of field with
  | plain => simp [Expr.code]
  | option =>
    dsimp only
    split <;> simp [Expr.code,Function.code]
  | cell => simpa [Expr.code] using asks_cell stored

theorem asks_getterExpr (model : Model) (field : Model.Field) :
    ((Getter.of model field).expr field.name).code.Within (Asks model field) := by
  have weak (target : Target) (pointed : isWeak field = true) :
      (Getter.expr field.name (.upgraded target)).code.Within (Asks model field) := by
    have pointed : Asks model field .weak := pointed
    simpa [Getter.expr,Expr.code,Method.code] using pointed
  have plain (getter : Getter) (other : ∀ target, getter ≠ .upgraded target) :
      (getter.expr field.name).code.Within (Asks model field) := by
    unfold Getter.expr
    split
    case h_1 target => exact absurd rfl (other target)
    all_goals simp [Expr.code,Method.code]
  unfold Getter.of
  cases field.kind with
  | single name =>
    dsimp only
    split
    next pointed => exact weak _ pointed
    next => exact plain _ (by simp)
  | list name =>
    dsimp only
    split <;> exact plain _ (by simp)
  | primitive value => cases value <;> exact plain _ (by simp)

theorem asks_setterExpr (model : Model) (field : Model.Field) :
    (Setter.of model field).expr.code.Within (Asks model field) := by
  unfold Setter.of
  split
  next name kind =>
    have reference : field.kind.target? = some name := by rw [kind]; rfl
    split
    · simpa [Setter.expr,Expr.code,Function.code] using asks_shared reference
    · simp [Setter.expr,Expr.code]
  next => simp [Setter.expr,Expr.code]

theorem asks_child (model : Model) (field : Model.Field) :
    (childSource field).code.Within (Asks model field) := by
  unfold childSource
  dsimp only
  split <;> simp [Expr.code,Method.code,Function.code]

theorem within_freshChild {allowed : Symbol → Prop} (shared : allowed .shared) {child : Expr}
    (inside : child.code.Within allowed) : (freshChild child).code.Within allowed := by
  simp [freshChild,Expr.code,Function.code,Method.code,shared,inside]

theorem within_freshChildren {allowed : Symbol → Prop} (shared : allowed .shared) {children : Expr}
    (inside : children.code.Within allowed) : (freshChildren children).code.Within allowed := by
  have fresh : (freshChild (.variable "c")).code.Within allowed :=
    within_freshChild shared (by simp [Expr.code])
  simp [freshChildren,Expr.code,Method.code,fresh,inside]

theorem asks_clone (model : Model)
    (mode : field.policy.copyMode.Admissible field.kind field.policy.bound) :
    (cloneExpr field field.step).code.Within (Asks model field) := by
  unfold cloneExpr
  cases step : field.step with
  | copyValue => simp [Expr.code,Method.code]
  | shareReference => simp [Expr.code,Method.code]
  | reset =>
    dsimp only
    split
    next stored => simpa [Expr.code] using asks_cell stored
    next => simp [Expr.code]
  | cloneChild =>
    obtain ⟨target,kind⟩ := Model.Field.kind_of_cloneChild step
    have shared : Asks model field .shared := asks_shared (by rw [kind]; rfl)
    dsimp only
    split
    · simpa [Expr.code,Method.code] using within_freshChild shared (by simp [Expr.code])
    · exact within_freshChild shared (by simp [Expr.code])
  | cloneList =>
    obtain ⟨target,kind⟩ := Model.Field.kind_of_cloneList step
    have shared : Asks model field .shared := asks_shared (by rw [kind]; rfl)
    dsimp only
    split
    · simpa [Expr.code,Method.code] using within_freshChildren shared (by simp [Expr.code])
    · exact within_freshChildren shared (by simp [Expr.code])
  | externalCopy type =>
    have kind := Model.Field.kind_of_externalCopy step mode
    have copied : Asks model field .externalCopy := Model.Field.copyMode_of_externalCopy step
    have named : Asks model field (.external type) := kind
    have shared : Asks model field .shared := .inr (by simp [kind,FieldKind.external?])
    cases stored : Storage.of field with
    | cell =>
      have mapped : Asks model field .mapCell := ⟨copied,bound_of_cell stored⟩
      simp [Expr.code,Function.code,copied,named,shared,mapped]
    | _ => simp [Expr.code,Function.code,Method.code,copied,named,shared]

theorem asks_accessor (model : Model) (field : Model.Field) {code : Code}
    (member : code ∈ (Accessor.of model field).codes) : code.Within (Asks model field) := by
  simp only [Accessor.codes,Accessor.of,List.mem_cons,List.not_mem_nil,or_false] at member
  rcases member with rfl | rfl | rfl | rfl
  · exact asks_getterType model field
  · exact asks_getterExpr model field
  · exact asks_setterType model field
  · exact asks_setterExpr model field

/-- The symbols of a class are due to its fields. -/
theorem ClassItem.asks {cls : Model.Class} (lists : cls.Consistent) {code : Code}
    (member : code ∈ (ClassItem.of model cls).codes) :
    ∃ field ∈ cls.fields, code.Within (Asks model field) := by
  have each {fields : List Model.Field} {make : Model.Field → Code} (inside : fields ⊆ cls.fields)
      (due : ∀ field ∈ fields, (make field).Within (Asks model field))
      (listed : code ∈ fields.map make) :
      ∃ field ∈ cls.fields, code.Within (Asks model field) := by
    obtain ⟨field,there,rfl⟩ := List.mem_map.mp listed
    exact ⟨field,inside there,due field there⟩
  simp only [codes,params_of lists,children_of lists,clones_of lists] at member
  simp only [ClassItem.of,List.map_map,List.flatMap_map,List.mem_append] at member
  rcases member with ((((stored | param) | initial) | access) | child) | clone
  · exact each (List.Subset.refl _) (fun field _ => asks_stored model field) stored
  · exact each (List.filter_subset_self _) (fun field _ => asks_param model field _) param
  · exact each (List.Subset.refl _) (fun field _ => asks_initial model field) initial
  · obtain ⟨field,there,listed⟩ := List.mem_flatMap.mp access
    exact ⟨field,List.mem_of_mem_filter there,asks_accessor model field listed⟩
  · exact each (List.filter_subset_self _) (fun field _ => asks_child model field) child
  · exact each (List.Subset.refl _)
      (fun field there => asks_clone model (lists.modes field there)) clone

end NodeModel.Source
